import Mathlib.Algebra.Group.Nat.Defs
import Mathlib.Data.List.Induction
import Mathlib.Data.List.TakeWhile
import Mathlib.Logic.Function.Basic
import Cxsw.Lib.CString
import Cxsw.Lib.LeastFirst

/-!
# Cxsw.CrLog.LogFiles — which log file is the oldest (`CrLog/CrLog.c`)

The log files of a device are the regular files whose name carries the name of its log.  They are counted, the oldest is
looked for, and it is removed, each in a pass of its own over the directory.  The search keeps the least time so far,
with zero for none yet, so behind a file of time zero it starts again.

* `getMinModificationTimeFileName`: the search.
* `picks_least_iff`: repeated removal takes the least time each time exactly if the files of time zero it comes to are
  the last ones.
* `mem_survivors_iff`: which files are left then.
-/

namespace Cxsw.Log

open CString

/-! ## The directory -/

section Defs

/-- A regular file. -/
structure LogFile where
  dName : List UInt8
  mtime : ℕ
  size : ℕ
  deriving DecidableEq

/-- The regular files of a directory in the order of `readdir`; the passes skip all else. -/
structure Directory where
  files : List LogFile
  nodup : (files.map LogFile.dName).Nodup

/-- `strstr(Ptr->d_name, Filter) != NULL`. -/
def carries (filter : List UInt8) (f : LogFile) : Bool := strstr f.dName filter

/-- The files that a pass looks at. -/
def Directory.carrying (d : Directory) (filter : List UInt8) : List LogFile := d.files.filter (carries filter)

/-- `CountLogFile`: the count is returned as an `S16`. -/
def countLogFile (d : Directory) (filter : List UInt8) : ℤ := Int.bmod (d.carrying filter).length (2 ^ 16)

/-- A round of the search, with `MinTime` and `MinPath`. -/
def searchStep (m : ℕ × Option LogFile) (f : LogFile) : ℕ × Option LogFile :=
  if m.1 = 0 then (f.mtime, some f)
  else if f.mtime < m.1 then (f.mtime, some f)
  else m

/-- The search among files. -/
def oldest (l : List LogFile) : Option LogFile := (l.foldl searchStep (0, none)).2

/-- `GetMinModificationTimeFileName`; no file is an empty name. -/
def getMinModificationTimeFileName (d : Directory) (filter : List UInt8) : Option LogFile := oldest (d.carrying filter)

/-- `remove`. -/
def Directory.remove (d : Directory) (name : List UInt8) : Directory where
  files := d.files.filter fun f => f.dName ≠ name
  nodup := d.nodup.sublist (List.filter_sublist.map _)

/-- The file that `open` finds. -/
def Directory.find (d : Directory) (name : List UInt8) : Option LogFile := d.files.find? fun f => f.dName = name

/-- `open` with `O_CREAT`: a file that is not there is made, at any place of the order. -/
def Directory.create (d : Directory) (name : List UInt8) (mtime place : ℕ) : Directory :=
  if h : name ∈ d.files.map LogFile.dName then d
  else
    { files := d.files.take place ++ ⟨name, mtime, 0⟩ :: d.files.drop place
      nodup := by
        have hperm : (d.files.take place ++ ⟨name, mtime, 0⟩ :: d.files.drop place).Perm
            (⟨name, mtime, 0⟩ :: d.files) := by
          refine List.perm_middle.trans ?_
          rw [List.take_append_drop]
        rw [(hperm.map LogFile.dName).nodup_iff, List.map_cons, List.nodup_cons]
        exact ⟨h, d.nodup⟩ }

/-- `write`. -/
def Directory.write (d : Directory) (name : List UInt8) (mtime size : ℕ) : Directory where
  files := d.files.map fun f => if f.dName = name then { f with mtime := mtime, size := size } else f
  nodup := by
    rw [List.map_map]
    have hname : (LogFile.dName ∘ fun f : LogFile =>
        if f.dName = name then { f with mtime := mtime, size := size } else f) = LogFile.dName := by
      funext f
      dsimp only [Function.comp]
      split_ifs <;> rfl
    rw [hname]
    exact d.nodup

/-- The files of time zero. -/
def zeros (l : List LogFile) : ℕ := l.countP fun f => f.mtime = 0

/-- The files of time zero that the list ends with. -/
def trailingZeros (l : List LogFile) : ℕ := (l.reverse.takeWhile fun f => f.mtime = 0).length

/-- The order in which files are removed: the lesser time first, of equal times the one that the search comes to first,
but of the times zero the last. -/
def Before (l : List LogFile) (f g : LogFile) : Prop :=
  f.mtime < g.mtime ∨
    f.mtime = g.mtime ∧ (if f.mtime = 0 then l.idxOf g < l.idxOf f else l.idxOf f < l.idxOf g)

instance (l : List LogFile) : DecidableRel (Before l) := fun f g => by
  unfold Before
  infer_instance

end Defs

/-! ## The search -/

section Search

variable {l l₀ : List LogFile} {b e : LogFile}

/-- The search ends with a file and its time. -/
theorem search_eq : ∀ {l : List LogFile}, l ≠ [] → ∃ e ∈ l, l.foldl searchStep (0, none) = (e.mtime, some e) := by
  intro l
  induction l using List.reverseRecOn with
  | nil => exact fun h => absurd rfl h
  | append_singleton l b ih =>
    intro _
    have hb : b ∈ l ++ [b] := List.mem_append_right _ (List.mem_singleton_self b)
    rw [List.foldl_append, List.foldl_cons, List.foldl_nil]
    by_cases hl : l = []
    · subst hl
      exact ⟨b, hb, rfl⟩
    · obtain ⟨e, he, heq⟩ := ih hl
      rw [heq]
      unfold searchStep
      split_ifs
      · exact ⟨b, hb, rfl⟩
      · exact ⟨b, hb, rfl⟩
      · exact ⟨e, List.mem_append_left _ he, rfl⟩

theorem oldest_picks : Picks oldest where
  mem := by
    intro l a h
    by_cases hl : l = []
    · subst hl
      exact absurd h (by simp [oldest])
    · obtain ⟨e, he, heq⟩ := search_eq hl
      rw [oldest, heq] at h
      rw [← Option.some.inj h]
      exact he
  exists_some := by
    intro l hl
    obtain ⟨e, -, heq⟩ := search_eq hl
    exact ⟨e, by rw [oldest, heq]⟩

/-- A last file of time zero is found. -/
theorem oldest_concat_zero (hb : b.mtime = 0) : oldest (l ++ [b]) = some b := by
  rw [oldest, List.foldl_append, List.foldl_cons, List.foldl_nil]
  unfold searchStep
  split_ifs with hzero hlt
  · rfl
  · rfl
  · omega

/-- Before a last file of another time all files of time zero are forgotten. -/
theorem oldest_concat_pos (hb : b.mtime ≠ 0) : ∃ e ∈ l ++ [b], oldest (l ++ [b]) = some e ∧ e.mtime ≠ 0 := by
  obtain ⟨e, he, heq⟩ := @search_eq (l ++ [b]) (by simp)
  refine ⟨e, he, by rw [oldest, heq], ?_⟩
  have htime : ((l ++ [b]).foldl searchStep (0, none)).1 = e.mtime := by rw [heq]
  rw [← htime, List.foldl_append, List.foldl_cons, List.foldl_nil]
  unfold searchStep
  split_ifs with hzero hlt
  · exact hb
  · exact hb
  · exact hzero

/-- Without times zero the first file of the least time is found. -/
theorem search_first : ∀ {l : List LogFile}, l ≠ [] → (∀ f ∈ l, f.mtime ≠ 0) →
    l.Pairwise (fun f g => l₀.idxOf f < l₀.idxOf g) →
    ∃ e ∈ l, l.foldl searchStep (0, none) = (e.mtime, some e) ∧ ∀ f ∈ l, f ≠ e → Before l₀ e f := by
  intro l
  induction l using List.reverseRecOn with
  | nil => exact fun h => absurd rfl h
  | append_singleton l b ih =>
    intro _ hpos hord
    have hb : b ∈ l ++ [b] := List.mem_append_right _ (List.mem_singleton_self b)
    obtain ⟨hord', -, hlast⟩ := List.pairwise_append.mp hord
    rw [List.foldl_append, List.foldl_cons, List.foldl_nil]
    by_cases hl : l = []
    · subst hl
      refine ⟨b, hb, rfl, fun f hf hne => absurd ?_ hne⟩
      simpa using hf
    · obtain ⟨e, he, heq, hbefore⟩ := ih hl (fun f hf => hpos f (List.mem_append_left _ hf)) hord'
      have he0 : e.mtime ≠ 0 := hpos e (List.mem_append_left _ he)
      rw [heq]
      unfold searchStep
      dsimp only
      rw [if_neg he0]
      by_cases hlt : b.mtime < e.mtime
      · rw [if_pos hlt]
        refine ⟨b, hb, rfl, fun f hf hne => Or.inl ?_⟩
        rcases List.mem_append.mp hf with hf | hf
        · obtain rfl | hfe := eq_or_ne f e
          · exact hlt
          · rcases hbefore f hf hfe with h | ⟨h, -⟩
            · exact hlt.trans h
            · exact h ▸ hlt
        · exact absurd (List.mem_singleton.mp hf) hne
      · rw [if_neg hlt]
        refine ⟨e, List.mem_append_left _ he, rfl, fun f hf hne => ?_⟩
        rcases List.mem_append.mp hf with hf | hf
        · exact hbefore f hf hne
        · rw [List.mem_singleton.mp hf]
          rcases Nat.lt_or_ge e.mtime b.mtime with h | h
          · exact Or.inl h
          · refine Or.inr ⟨by omega, ?_⟩
            rw [if_neg he0]
            exact hlast e he b (List.mem_singleton_self b)

end Search

/-! ## Repeated removal -/

section Survivors

variable {l l₀ : List LogFile} {b e w : LogFile} {k : ℕ}

@[simp] theorem zeros_concat_zero (hb : b.mtime = 0) : zeros (l ++ [b]) = zeros l + 1 := by
  simp [zeros, hb]

@[simp] theorem zeros_concat_pos (hb : b.mtime ≠ 0) : zeros (l ++ [b]) = zeros l := by
  simp [zeros, hb]

@[simp] theorem trailingZeros_concat_zero (hb : b.mtime = 0) : trailingZeros (l ++ [b]) = trailingZeros l + 1 := by
  simp [trailingZeros, hb]

@[simp] theorem trailingZeros_concat_pos (hb : b.mtime ≠ 0) : trailingZeros (l ++ [b]) = 0 := by
  simp [trailingZeros, hb]

theorem zeros_eq_zero : zeros l = 0 ↔ ∀ f ∈ l, f.mtime ≠ 0 := by
  simp [zeros, List.countP_eq_zero]

theorem Before.asymm {f g : LogFile} (h : Before l f g) : ¬Before l g f := by
  unfold Before at *
  split_ifs at h ⊢ <;> omega

theorem Before.le {f g : LogFile} (h : Before l f g) : f.mtime ≤ g.mtime := by
  rcases h with h | ⟨h, -⟩
  · exact h.le
  · exact h.le

/-- The state in which `k` removals go right. -/
structure Removable (l₀ : List LogFile) (k : ℕ) (l : List LogFile) : Prop where
  enough : k ≤ l.length
  nodup : l.Nodup
  ordered : l.Pairwise fun f g => l₀.idxOf f < l₀.idxOf g
  zeros_le : min (zeros l) k ≤ trailingZeros l

/-- **Step lemma**: the file that is found comes before all others, and the next removal goes right too. -/
theorem Removable.step (h : Removable l₀ (k + 1) l) :
    ∃ e ∈ l, oldest l = some e ∧ (∀ f ∈ l, f ≠ e → Before l₀ e f) ∧ Removable l₀ k (l.erase e) := by
  obtain ⟨henough, hnodup, hord, hzeros⟩ := h
  have herase : ∀ e ∈ l, k ≤ (l.erase e).length ∧ (l.erase e).Nodup ∧
      (l.erase e).Pairwise fun f g => l₀.idxOf f < l₀.idxOf g := by
    intro e he
    refine ⟨?_, hnodup.erase e, hord.sublist List.erase_sublist⟩
    have hlen := List.length_erase_of_mem he
    omega
  by_cases hnone : zeros l = 0
  · have hpos := zeros_eq_zero.mp hnone
    obtain ⟨e, he, heq, hbefore⟩ := search_first (List.ne_nil_of_length_pos (by omega : 0 < l.length)) hpos hord
    obtain ⟨hlen, hn, ho⟩ := herase e he
    have hzero : zeros (l.erase e) = 0 := zeros_eq_zero.mpr fun f hf => hpos f (List.mem_of_mem_erase hf)
    exact ⟨e, he, by rw [oldest, heq], hbefore, hlen, hn, ho, by omega⟩
  · induction l using List.reverseRecOn with
    | nil => exact absurd rfl hnone
    | append_singleton l b =>
      have hb : b.mtime = 0 := by
        by_contra hb
        rw [trailingZeros_concat_pos hb] at hzeros
        omega
      have hbl : b ∉ l := by
        rw [List.nodup_append] at hnodup
        exact fun hmem => hnodup.2.2 b hmem b (List.mem_singleton_self b) rfl
      have hback : (l ++ [b]).erase b = l := by
        rw [List.erase_append_right _ hbl, List.erase_cons_head, List.append_nil]
      have hmem : b ∈ l ++ [b] := List.mem_append_right _ (List.mem_singleton_self b)
      obtain ⟨hlen, hn, ho⟩ := herase b hmem
      rw [hback] at hlen hn ho
      rw [zeros_concat_zero hb, trailingZeros_concat_zero hb] at hzeros
      have hrest : Removable l₀ k l := ⟨hlen, hn, ho, by omega⟩
      refine ⟨b, hmem, oldest_concat_zero hb, fun f hf hne => ?_, by rw [hback]; exact hrest⟩
      have hf : f ∈ l := by simpa [hne] using hf
      have hidx := (List.pairwise_append.mp hord).2.2 f hf b (List.mem_singleton_self b)
      by_cases hf0 : f.mtime = 0
      · refine Or.inr ⟨by omega, ?_⟩
        rw [if_pos hb]
        exact hidx
      · exact Or.inl (by omega)

/-- Each of `k` removals takes a file of the least time. -/
def LeastEach (k : ℕ) (l : List LogFile) : Prop := ∀ p ∈ picks oldest k l, ∀ f ∈ p.2, p.1.mtime ≤ f.mtime

theorem LeastEach.of_succ (he : oldest l = some e) (h : LeastEach (k + 1) l) :
    (∀ f ∈ l, e.mtime ≤ f.mtime) ∧ LeastEach k (l.erase e) := by
  unfold LeastEach at h
  rw [picks_some he] at h
  exact ⟨h (e, l) List.mem_cons_self, fun p hp => h p (List.mem_cons_of_mem _ hp)⟩

theorem Removable.leastEach : ∀ {k : ℕ} {l : List LogFile}, Removable l₀ k l → LeastEach k l
  | 0, _, _ => fun _ hp => absurd hp List.not_mem_nil
  | k + 1, l, h => by
    obtain ⟨e, -, heq, hbefore, hrest⟩ := h.step
    intro p hp f hf
    rw [picks_some heq] at hp
    rcases List.mem_cons.mp hp with rfl | hp
    · obtain rfl | hne := eq_or_ne f e
      · exact le_rfl
      · exact (hbefore f hf hne).le
    · exact hrest.leastEach p hp f hf

/-- If each removal takes the least time, the files of time zero that are removed were the last ones. -/
theorem LeastEach.zeros_le : ∀ {k : ℕ} {l : List LogFile}, l.Nodup → LeastEach k l →
    min (zeros l) k ≤ trailingZeros l
  | 0, l, _, _ => by simp
  | k + 1, l, hnodup, h => by
    induction l using List.reverseRecOn with
    | nil => simp [zeros]
    | append_singleton l b =>
      by_cases hb : b.mtime = 0
      · have hbl : b ∉ l := by
          rw [List.nodup_append] at hnodup
          exact fun hmem => hnodup.2.2 b hmem b (List.mem_singleton_self b) rfl
        have hrest := (h.of_succ (oldest_concat_zero hb)).2
        rw [List.erase_append_right _ hbl, List.erase_cons_head, List.append_nil] at hrest
        have ih := hrest.zeros_le (List.nodup_append.mp hnodup).1
        rw [zeros_concat_zero hb, trailingZeros_concat_zero hb]
        omega
      · obtain ⟨e, -, heq, he⟩ := @oldest_concat_pos l b hb
        have hleast := (h.of_succ heq).1
        have hnone : zeros (l ++ [b]) = 0 := by
          rw [zeros_eq_zero]
          intro f hf hf0
          have hle := hleast f hf
          omega
        rw [hnone]
        omega

theorem pairwise_idxOf (hnodup : l.Nodup) : l.Pairwise fun f g => l.idxOf f < l.idxOf g := by
  rw [List.pairwise_iff_getElem]
  intro i j hi hj hij
  rw [hnodup.idxOf_getElem i hi, hnodup.idxOf_getElem j hj]
  exact hij

theorem removable_iff (hnodup : l.Nodup) (hk : k ≤ l.length) :
    Removable l k l ↔ min (zeros l) k ≤ trailingZeros l :=
  ⟨fun h => h.zeros_le, fun h => ⟨hk, hnodup, pairwise_idxOf hnodup, h⟩⟩

/-- **The search**, again and again, takes the least time each time exactly if the files of time zero that it comes to
are the last ones. -/
theorem picks_least_iff (hnodup : l.Nodup) (hk : k ≤ l.length) :
    LeastEach k l ↔ min (zeros l) k ≤ trailingZeros l :=
  ⟨fun h => h.zeros_le hnodup, fun h => ((removable_iff hnodup hk).mpr h).leastEach⟩

/-- **The files left** are then those that `k` files come before. -/
theorem mem_survivors_iff (hnodup : l.Nodup) (hk : k ≤ l.length) (hzeros : min (zeros l) k ≤ trailingZeros l)
    (hw : w ∈ l) : w ∈ dropPicked oldest k l ↔ k ≤ l.countP fun f => Before l f w :=
  mem_dropPicked_iff (fun _ _ h => h.step) (fun _ _ h => h.asymm) ((removable_iff hnodup hk).mpr hzeros) hnodup hw

end Survivors

/-! ## The operations -/

section Operations

variable {d : Directory} {filter name : List UInt8} {f : LogFile}

theorem carrying_nodup (d : Directory) (filter : List UInt8) : (d.carrying filter).Nodup :=
  (d.nodup.of_map _).filter _

theorem Directory.eq_of_dName {f g : LogFile} (hf : f ∈ d.files) (hg : g ∈ d.files) (h : f.dName = g.dName) : f = g :=
  List.inj_on_of_nodup_map d.nodup hf hg h

theorem mem_files_of_mem_carrying (h : f ∈ d.carrying filter) : f ∈ d.files := (List.mem_filter.mp h).1

/-- To remove a file that carries the name. -/
theorem carrying_remove (hf : f ∈ d.carrying filter) :
    (d.remove f.dName).carrying filter = (d.carrying filter).erase f := by
  rw [(carrying_nodup d filter).erase_eq_filter]
  unfold Directory.carrying Directory.remove
  dsimp only
  rw [List.filter_comm]
  refine List.filter_congr fun g hg => ?_
  have hiff : g.dName = f.dName ↔ g = f :=
    ⟨d.eq_of_dName (List.mem_filter.mp hg).1 (mem_files_of_mem_carrying hf), fun h => h ▸ rfl⟩
  by_cases hgf : g = f
  · simp [hgf]
  · simp [hgf, hiff]

/-- For a directory that only loses files each filter finds fewer. -/
theorem carrying_sublist {d d' : Directory} (h : d'.files.Sublist d.files) (filter : List UInt8) :
    (d'.carrying filter).Sublist (d.carrying filter) := h.filter _

theorem carrying_write (d : Directory) (name : List UInt8) (mtime size : ℕ) (filter : List UInt8) :
    ((d.write name mtime size).carrying filter).length = (d.carrying filter).length := by
  unfold Directory.carrying Directory.write
  dsimp only
  rw [List.filter_map, List.length_map]
  congr 1
  refine List.filter_congr fun f _ => ?_
  dsimp only [Function.comp, carries]
  split_ifs <;> rfl

theorem create_of_mem {mtime place : ℕ} (h : name ∈ d.files.map LogFile.dName) : d.create name mtime place = d := by
  rw [Directory.create, dif_pos h]

/-- A new file counts for the filters that its name carries. -/
theorem carrying_create {mtime place : ℕ} (h : name ∉ d.files.map LogFile.dName) :
    ((d.create name mtime place).carrying filter).length =
      (d.carrying filter).length + if strstr name filter then 1 else 0 := by
  rw [Directory.create, dif_neg h]
  unfold Directory.carrying
  dsimp only
  have hsplit : d.files.filter (carries filter) =
      (d.files.take place).filter (carries filter) ++ (d.files.drop place).filter (carries filter) := by
    rw [← List.filter_append, List.take_append_drop]
  rw [hsplit, List.filter_append, List.filter_cons]
  by_cases hc : strstr name filter = true
  · rw [if_pos hc, if_pos (show carries filter ⟨name, mtime, 0⟩ = true from hc), List.length_append, List.length_cons,
      List.length_append]
    omega
  · rw [if_neg hc, if_neg (show ¬carries filter ⟨name, mtime, 0⟩ = true from hc)]
    rfl

theorem mem_create (d : Directory) (name : List UInt8) (mtime place : ℕ) :
    name ∈ (d.create name mtime place).files.map LogFile.dName := by
  by_cases h : name ∈ d.files.map LogFile.dName
  · rw [create_of_mem h]
    exact h
  · rw [Directory.create, dif_neg h]
    simp

/-- A name that carries the filter is that of a file that carries it. -/
theorem exists_carrying_iff (hname : strstr name filter = true) :
    name ∈ d.files.map LogFile.dName ↔ ∃ w ∈ d.carrying filter, w.dName = name := by
  rw [List.mem_map]
  constructor
  · rintro ⟨w, hw, rfl⟩
    exact ⟨w, List.mem_filter.mpr ⟨hw, hname⟩, rfl⟩
  · rintro ⟨w, hw, hwn⟩
    exact ⟨w, mem_files_of_mem_carrying hw, hwn⟩

end Operations

end Cxsw.Log
