import Mathlib.Data.List.TakeDrop
import Cxsw.Lib.CString

/-!
# Cxsw.CrSdCard.CrSdCardAppInterface — pages of a directory (`CrSdCard/AppInterface/CrSdCardAppInterface.c`)

The menu asks for a page of the current directory and later for the file of an index; both scan the directory again and
count the entries that pass the filter.

A directory is the list of what `CrReadDir` returns.  A directory that is open takes one of the file descriptors, and
the function for an index does not close its directory.  The counters are integers without overflow: the page number of
a request is one byte and its page size at most `PAGE_FILE_COUNT`.

* `returnFile`: a page, with the count of the entries that the scan has met.
* `returnLongNameFile`: the file of an index.
* `directory_paging`: the pages make up the listing, and both functions number it alike.
* `directory_paging_iff`: they do so until the calls for an index have used up the descriptors.
-/

namespace Cxsw.SdCard

open CString

/-! ## The functions -/

section Defs

/-- `struct dirent` as the file system fills it in; `d_name` is the whole array. -/
structure Dirent where
  d_type : ℕ
  d_namlen : ℕ
  d_name : List UInt8
  namlen_eq : d_namlen = strlen d_name

/-- `FileInfo_t`. -/
structure FileInfo where
  name : List UInt8
  isDirectory : Bool
  deriving DecidableEq

/-- `FILE_NAME_LENGTH`, the size of the name in `FileInfo_t`. -/
def fileNameLength : ℕ := 32

/-- The entry for the parent directory. -/
def parentEntry : FileInfo := ⟨text ".." ++ List.replicate 30 0, true⟩

/-- The entry of a file, with as much of the array of its name as fits. -/
def Dirent.entry (d : Dirent) : FileInfo := ⟨d.d_name.take fileNameLength, d.d_type = 2⟩

/-- The test of both scans.  For a directory the comparison has no effect. -/
def passesFilter (filter : List UInt8) (d : Dirent) : Bool :=
  ((filter.length ≤ d.d_namlen && d.d_type = 1) || d.d_type = 2) &&
    (str (d.d_name.drop (d.d_namlen - filter.length)) = filter || d.d_type = 2)

/-- The variables of a scan: `FilesNum`, `Var`, `Cnt` and the array that is filled in. -/
structure PageScan where
  filesNum : ℤ
  var : ℕ
  cnt : ℤ
  fileList : List FileInfo

/-- The next entry of the array is written. -/
def PageScan.write (s : PageScan) (e : FileInfo) : PageScan :=
  { s with fileList := s.fileList.set s.var e, var := s.var + 1 }

/-- The loop of `ReturnFIle` with a filter. -/
def scanFiltered (filter : List UInt8) (page maxCount : ℤ) : List Dirent → PageScan → PageScan
  | [], s => s
  | d :: dir, s =>
    if passesFilter filter d then
      let s := { s with filesNum := s.filesNum + 1 }
      if (s.var : ℤ) = maxCount then s
      else
        let s := { s with cnt := s.cnt + 1 }
        scanFiltered filter page maxCount dir (if s.cnt ≥ page * maxCount then s.write d.entry else s)
    else scanFiltered filter page maxCount dir s

/-- The loop of `FilePointerOffsetIndex`, which writes from the start of the array. -/
def scanAll (page maxCount : ℤ) : List Dirent → PageScan → PageScan
  | [], s => s
  | d :: dir, s =>
    let s := { s with cnt := s.cnt + 1 }
    scanAll page maxCount dir
      (if s.cnt ≥ page * maxCount ∧ (s.var : ℤ) < maxCount then s.write d.entry else s)

/-- `FilePointerOffsetIndex`. -/
def filePointerOffsetIndex (dir : List Dirent) (page maxCount : ℤ) (fileList : List FileInfo) : ℤ × List FileInfo :=
  if page < 0 ∨ maxCount ≤ 0 then (-1, fileList)
  else
    let s := scanAll page maxCount dir ⟨0, 0, 0, fileList⟩
    (s.filesNum + s.cnt, s.fileList)

/-- The variables before the loop: the first page begins with the parent directory. -/
def startScan (page : ℤ) (fileList : List FileInfo) : PageScan :=
  let s : PageScan := ⟨1, 0, 0, fileList⟩
  if page = 0 then s.write parentEntry else s

/-- `ReturnFIle`: the count and the array. -/
def returnFile (dir : List Dirent) (page maxCount : ℤ) (fileList : List FileInfo) (filter : Option (List UInt8)) :
    ℤ × List FileInfo :=
  if page < 0 ∨ maxCount ≤ 0 then (-1, fileList)
  else
    let s := startScan page fileList
    match filter with
    | some filter =>
      let s := scanFiltered filter page maxCount dir s
      (s.filesNum, s.fileList)
    | none =>
      let r := filePointerOffsetIndex dir page maxCount s.fileList
      (s.filesNum + r.1, r.2)

/-- `DFS_FD_MAX`. -/
def dfsFdMax : ℕ := 16

/-- `CrOpenDir` with so many descriptors taken; `dir` is what the path can be opened to, if it can. -/
def crOpenDir (taken : ℕ) (dir : Option (List Dirent)) : Option (List Dirent) × ℕ :=
  if taken < dfsFdMax then
    match dir with
    | none => (none, taken)
    | some dir => (some dir, taken + 1)
  else (none, taken)

/-- `CrCloseDir`. -/
def crCloseDir (taken : ℕ) : ℕ := taken - 1

/-- `CrSdCardGetFileNameToBeShow`: the count and the array, and the descriptors that are taken afterwards. -/
def crSdCardGetFileNameToBeShow (taken : ℕ) (dir : Option (List Dirent)) (page : ℤ) (fileList : List FileInfo)
    (maxCount : ℤ) (filter : Option (List UInt8)) : (ℤ × List FileInfo) × ℕ :=
  match crOpenDir taken dir with
  | (none, taken) => ((-1, fileList), taken)
  | (some dir, taken) => (returnFile dir page maxCount fileList filter, crCloseDir taken)

/-- The loop of `ReturnLongNameFIle`. -/
def findIndex (filter : List UInt8) (index : ℤ) : List Dirent → ℤ → Option (List UInt8)
  | [], _ => none
  | d :: dir, filesNum =>
    if passesFilter filter d then
      if filesNum + 1 = index then some d.d_name else findIndex filter index dir (filesNum + 1)
    else findIndex filter index dir filesNum

/-- `ReturnLongNameFIle`: the array of the name. -/
def returnLongNameFile (dir : List Dirent) (index : ℤ) (filter : Option (List UInt8)) : Option (List UInt8) :=
  if index < 0 then none
  else
    match filter with
    | some filter => findIndex filter index dir 0
    | none => none

/-- `CrSdCardGetFileForIndex`.  The directory stays open. -/
def crSdCardGetFileForIndex (taken : ℕ) (index : ℤ) (dir : Option (List Dirent)) (filter : Option (List UInt8)) :
    Option (List UInt8) × ℕ :=
  if index < 0 then (none, taken)
  else
    match crOpenDir taken dir with
    | (none, taken) => (none, taken)
    | (some dir, taken) => (returnLongNameFile dir index filter, taken)

/-- A call of one of the two functions, on any directory. -/
inductive DirCall
  | page (dir : Option (List Dirent)) (page : ℤ) (fileList : List FileInfo) (maxCount : ℤ)
      (filter : Option (List UInt8))
  | index (index : ℤ) (dir : Option (List Dirent)) (filter : Option (List UInt8))

/-- The descriptors that are taken after a call. -/
def DirCall.taken (taken : ℕ) : DirCall → ℕ
  | .page dir p fileList maxCount filter => (crSdCardGetFileNameToBeShow taken dir p fileList maxCount filter).2
  | .index i dir filter => (crSdCardGetFileForIndex taken i dir filter).2

/-- A call for an index of a directory that can be opened. -/
def DirCall.leaks : DirCall → Bool
  | .page .. => false
  | .index i dir _ => 0 ≤ i && dir.isSome

/-- The entries that a call for a page writes. -/
def shown (dir : List Dirent) (page maxCount : ℕ) (filter : List UInt8) : List FileInfo :=
  let blank : List FileInfo := List.replicate maxCount ⟨[], false⟩
  let s := scanFiltered filter page maxCount dir (startScan page blank)
  s.fileList.take s.var

/-- What the menu is to show: a sub-directory, or a file whose name ends with the suffix. -/
def Listed (filter : List UInt8) (d : Dirent) : Prop := d.d_type = 2 ∨ d.d_type = 1 ∧ filter <:+ str d.d_name

instance (filter : List UInt8) (d : Dirent) : Decidable (Listed filter d) := inferInstanceAs (Decidable (_ ∨ _ ∧ _))

/-- Its entries, in the order of the directory. -/
def listed (dir : List Dirent) (filter : List UInt8) : List Dirent := dir.filter fun d => Listed filter d

/-- The parent directory and these entries. -/
def listing (dir : List Dirent) (filter : List UInt8) : List FileInfo :=
  parentEntry :: (listed dir filter).map Dirent.entry

/-- **Paging**, of a directory with pages of `n` entries, where so many descriptors are taken. -/
structure Paging (taken : ℕ) (dir : List Dirent) (n : ℕ) (filter : List UInt8) : Prop where
  /-- The array has the entries of the page at its start and is unchanged behind them, -/
  array : ∀ (page : ℕ) (fileList : List FileInfo), n ≤ fileList.length →
    (crSdCardGetFileNameToBeShow taken (some dir) page fileList n (some filter)).1.2 =
      shown dir page n filter ++ fileList.drop (shown dir page n filter).length
  /-- the pages one after the other are the listing, -/
  pages : ∀ k : ℕ, (List.range k).flatMap (fun page => shown dir page n filter) = (listing dir filter).take (k * n)
  /-- which shows at each position from 1 on the entry that has this index, -/
  index : ∀ i : ℕ, 1 ≤ i → ∃ d : Option Dirent,
    (crSdCardGetFileForIndex taken i (some dir) (some filter)).1 = d.map Dirent.d_name ∧
      (listing dir filter)[i]? = d.map Dirent.entry
  /-- and the count exceeds the entries so far exactly when there are more. -/
  count : ∀ (page : ℕ) (fileList : List FileInfo), n ≤ fileList.length →
    ((((List.range (page + 1)).flatMap fun page => shown dir page n filter).length : ℤ) <
      (crSdCardGetFileNameToBeShow taken (some dir) page fileList n (some filter)).1.1 ↔
        shown dir (page + 1) n filter ≠ [])

end Defs

/-! ## The filter -/

section Filter

variable {filter : List UInt8} {d : Dirent} {dir : List Dirent}

theorem passesFilter_iff : passesFilter filter d = true ↔ Listed filter d := by
  unfold passesFilter Listed
  by_cases hdir : d.d_type = 2
  · simp [hdir]
  · have hdrop : filter.length ≤ d.d_namlen →
        str (d.d_name.drop (d.d_namlen - filter.length)) =
          (str d.d_name).drop ((str d.d_name).length - filter.length) := by
      intro _
      rw [str_drop (by rw [d.namlen_eq]; exact Nat.sub_le ..), d.namlen_eq, length_str]
    simp only [hdir, decide_false, Bool.or_false, Bool.and_eq_true, decide_eq_true_eq, false_or]
    constructor
    · rintro ⟨⟨hlen, htype⟩, hcmp⟩
      rw [hdrop hlen] at hcmp
      exact ⟨htype, List.suffix_iff_eq_drop.mpr hcmp.symm⟩
    · rintro ⟨htype, hsuffix⟩
      have hlen : filter.length ≤ d.d_namlen := by
        rw [d.namlen_eq, ← length_str]
        exact hsuffix.length_le
      rw [hdrop hlen]
      exact ⟨⟨hlen, htype⟩, (List.suffix_iff_eq_drop.mp hsuffix).symm⟩

theorem listed_cons_of_pos (h : passesFilter filter d = true) :
    listed (d :: dir) filter = d :: listed dir filter :=
  List.filter_cons_of_pos (decide_eq_true (passesFilter_iff.mp h))

theorem listed_cons_of_neg (h : ¬ passesFilter filter d = true) : listed (d :: dir) filter = listed dir filter := by
  refine List.filter_cons_of_neg ?_
  rw [decide_eq_true_eq]
  exact fun hl => h (passesFilter_iff.mpr hl)

end Filter

/-! ## A page -/

section Page

variable {filter : List UInt8} {n : ℕ}

/-- **The loop**, with `done` written and `c` entries counted before: it skips what belongs to earlier pages, fills the
page, and counts one entry more if there is one. -/
theorem scanFiltered_eq (p : ℕ) : ∀ (dir : List Dirent) (f : ℤ) (c : ℕ) (done rest : List FileInfo),
    n ≤ done.length + rest.length → done.length ≤ n → (done.length = n → p * n ≤ c + 1) →
    let w := (((listed dir filter).drop (p * n - 1 - c)).take (n - done.length)).map Dirent.entry
    ∃ c', scanFiltered filter p n dir ⟨f, done.length, c, done ++ rest⟩ =
      ⟨f + (min (listed dir filter).length (p * n - 1 - c + (n - done.length) + 1) : ℕ), done.length + w.length, c',
        done ++ w ++ rest.drop w.length⟩
  | [], f, c, done, rest, _, _, _ => ⟨c, by simp [scanFiltered, listed]⟩
  | d :: dir, f, c, done, rest, hroom, hle, hfull => by
    intro w
    unfold scanFiltered
    by_cases hpass : passesFilter filter d = true
    · rw [if_pos hpass]
      dsimp only
      simp only [w, listed_cons_of_pos hpass]
      by_cases hfulln : done.length = n
      · -- one more than the page has room for
        have hskip : p * n - 1 - c = 0 := by
          have := hfull hfulln
          omega
        rw [if_pos (by exact_mod_cast hfulln), hskip, hfulln]
        exact ⟨c, by simp⟩
      rw [if_neg (by exact_mod_cast hfulln)]
      by_cases hwrite : p * n ≤ c + 1
      · -- it is on the page
        rw [if_pos (by exact_mod_cast hwrite)]
        obtain ⟨r, rest, rfl⟩ : ∃ r rest', rest = r :: rest' := by
          cases rest with
          | nil =>
            rw [List.length_nil] at hroom
            omega
          | cons r rest => exact ⟨r, rest, rfl⟩
        rw [List.length_cons] at hroom
        obtain ⟨c', hrun⟩ := scanFiltered_eq p dir (f + 1) (c + 1) (done ++ [d.entry]) rest
          (by rw [List.length_append, List.length_singleton]; omega)
          (by rw [List.length_append, List.length_singleton]; omega) fun _ => by omega
        have hskip : p * n - 1 - c = 0 := by omega
        have hskip' : p * n - 1 - (c + 1) = 0 := by omega
        have hroom' : n - done.length = n - (done.length + 1) + 1 := by omega
        rw [hskip'] at hrun
        rw [hskip, hroom']
        refine ⟨c', ?_⟩
        have hset : (done ++ r :: rest).set done.length d.entry = done ++ [d.entry] ++ rest := by
          rw [List.set_append_right _ _ le_rfl, Nat.sub_self, List.set_cons_zero, List.append_assoc]
          rfl
        rw [List.length_append, List.length_singleton] at hrun
        change scanFiltered filter p n dir ⟨f + 1, done.length + 1, (c : ℤ) + 1,
          (done ++ r :: rest).set done.length _⟩ = _
        rw [hset]
        push_cast at hrun
        rw [hrun]
        simp
        omega
      · -- it is on an earlier page
        rw [if_neg (by exact_mod_cast hwrite)]
        obtain ⟨c', hrun⟩ := scanFiltered_eq p dir (f + 1) (c + 1) done rest hroom hle fun h => absurd h hfulln
        have hskip : p * n - 1 - c = p * n - 1 - (c + 1) + 1 := by omega
        refine ⟨c', ?_⟩
        rw [hskip]
        push_cast at hrun
        rw [hrun]
        simp
        omega
    · rw [if_neg hpass]
      obtain ⟨c', hrun⟩ := scanFiltered_eq p dir f c done rest hroom hle hfull
      refine ⟨c', ?_⟩
      rw [hrun]
      simp only [w, listed_cons_of_neg hpass]

/-- **A page** has its part of the listing, and the count goes one beyond it if there is more. -/
theorem scan_page (dir : List Dirent) (p : ℕ) (hn : 1 ≤ n) {fileList : List FileInfo} (hroom : n ≤ fileList.length) :
    let w := ((listing dir filter).drop (p * n)).take n
    ∃ c', scanFiltered filter p n dir (startScan p fileList) =
      ⟨1 + (min (listed dir filter).length ((p + 1) * n) : ℕ), w.length, c', w ++ fileList.drop w.length⟩ := by
  intro w
  cases p with
  | zero =>
    obtain ⟨e, rest, rfl⟩ : ∃ e rest, fileList = e :: rest := by
      cases fileList with
      | nil =>
        rw [List.length_nil] at hroom
        omega
      | cons e rest => exact ⟨e, rest, rfl⟩
    rw [List.length_cons] at hroom
    obtain ⟨c', hrun⟩ := @scanFiltered_eq filter n 0 dir 1 0 [parentEntry] rest
      (by rw [List.length_singleton]; omega) hn fun _ => by omega
    refine ⟨c', ?_⟩
    have hstart : startScan (0 : ℕ) (e :: rest) = ⟨1, [parentEntry].length, (0 : ℕ), [parentEntry] ++ rest⟩ := rfl
    have hw : w = [parentEntry] ++
        (((listed dir filter).drop (0 * n - 1 - 0)).take (n - [parentEntry].length)).map Dirent.entry := by
      obtain ⟨m, rfl⟩ := Nat.exists_eq_add_of_le' hn
      simp [w, listing, List.map_take]
    have hcount : 0 * n - 1 - 0 + (n - [parentEntry].length) + 1 = (0 + 1) * n := by
      rw [List.length_singleton]
      omega
    have hdrop : ∀ k, (e :: rest).drop ([parentEntry].length + k) = rest.drop k := fun k => by
      rw [List.length_singleton, Nat.add_comm, List.drop_succ_cons]
    rw [hstart, hrun, hcount, hw, List.length_append, hdrop]
  | succ p =>
    obtain ⟨c', hrun⟩ := @scanFiltered_eq filter n (p + 1) dir 1 0 [] fileList
      (by rw [List.length_nil]; omega) (Nat.zero_le n) fun h => by rw [List.length_nil] at h; omega
    refine ⟨c', ?_⟩
    have hstart : startScan (p + 1 : ℕ) fileList = ⟨1, ([] : List FileInfo).length, (0 : ℕ), [] ++ fileList⟩ := by
      unfold startScan
      rw [if_neg (by omega)]
      rfl
    have hskip : (p + 1) * n = (p + 1) * n - 1 - 0 + 1 := by
      have : 0 < (p + 1) * n := Nat.mul_pos p.succ_pos hn
      omega
    have hw : w = (((listed dir filter).drop ((p + 1) * n - 1 - 0)).take (n - 0)).map Dirent.entry := by
      change ((listing dir filter).drop ((p + 1) * n)).take n = _
      rw [hskip, listing, List.drop_succ_cons, ← hskip, ← List.map_drop, ← List.map_take]
      rfl
    have hcount : (p + 1) * n - 1 - 0 + (n - 0) + 1 = (p + 1 + 1) * n := by
      rw [Nat.succ_mul (p + 1)]
      omega
    rw [hstart, hrun, List.length_nil, hcount, ← hw, Nat.zero_add]
    rfl

theorem shown_eq (dir : List Dirent) (p : ℕ) (hn : 1 ≤ n) :
    shown dir p n filter = ((listing dir filter).drop (p * n)).take n := by
  have hblank : n ≤ (List.replicate n (⟨[], false⟩ : FileInfo)).length := by rw [List.length_replicate]
  obtain ⟨c', hrun⟩ := @scan_page filter n dir p hn _ hblank
  unfold shown
  dsimp only
  rw [hrun]
  exact List.take_left

theorem crOpenDir_of_free {taken : ℕ} (hfree : taken < dfsFdMax) (dir : List Dirent) :
    crOpenDir taken (some dir) = (some dir, taken + 1) := by
  unfold crOpenDir
  rw [if_pos hfree]

theorem crOpenDir_of_full {taken : ℕ} (hfull : ¬ taken < dfsFdMax) (dir : Option (List Dirent)) :
    crOpenDir taken dir = (none, taken) := by
  unfold crOpenDir
  rw [if_neg hfull]

theorem getFileNameToBeShow_of_full {taken : ℕ} (hfull : ¬ taken < dfsFdMax) (dir : Option (List Dirent))
    (page maxCount : ℤ) (fileList : List FileInfo) (filter : Option (List UInt8)) :
    crSdCardGetFileNameToBeShow taken dir page fileList maxCount filter = ((-1, fileList), taken) := by
  unfold crSdCardGetFileNameToBeShow
  rw [crOpenDir_of_full hfull]

theorem getFileNameToBeShow_eq {taken : ℕ} (hfree : taken < dfsFdMax) (dir : List Dirent) (p : ℕ) (hn : 1 ≤ n)
    {fileList : List FileInfo} (hroom : n ≤ fileList.length) :
    crSdCardGetFileNameToBeShow taken (some dir) p fileList n (some filter) =
      ((1 + ((min (listed dir filter).length ((p + 1) * n) : ℕ) : ℤ),
        shown dir p n filter ++ fileList.drop (shown dir p n filter).length), taken) := by
  obtain ⟨c', hrun⟩ := @scan_page filter n dir p hn _ hroom
  unfold crSdCardGetFileNameToBeShow returnFile crCloseDir
  rw [crOpenDir_of_free hfree]
  dsimp only
  rw [if_neg (by omega), hrun, shown_eq dir p hn, Nat.add_sub_cancel]

theorem flatMap_pages (l : List FileInfo) (n : ℕ) : ∀ k : ℕ,
    (List.range k).flatMap (fun p => (l.drop (p * n)).take n) = l.take (k * n)
  | 0 => by simp
  | k + 1 => by
    rw [List.range_succ, List.flatMap_append, flatMap_pages l n k, List.flatMap_singleton, Nat.succ_mul, List.take_add]

end Page

/-! ## An index -/

section Index

variable {filter : List UInt8}

theorem findIndex_eq (i : ℕ) : ∀ (dir : List Dirent) (f : ℕ), f < i →
    findIndex filter i dir f = ((listed dir filter)[i - f - 1]?).map Dirent.d_name
  | [], f, _ => rfl
  | d :: dir, f, hf => by
    unfold findIndex
    by_cases hpass : passesFilter filter d = true
    · rw [if_pos hpass, listed_cons_of_pos hpass]
      by_cases heq : f + 1 = i
      · rw [if_pos (by exact_mod_cast heq)]
        have hzero : i - f - 1 = 0 := by omega
        rw [hzero]
        rfl
      · rw [if_neg (by exact_mod_cast heq)]
        have hpos : i - f - 1 = i - (f + 1) - 1 + 1 := by omega
        have ih := findIndex_eq i dir (f + 1) (by omega)
        push_cast at ih
        rw [hpos, List.getElem?_cons_succ, ih]
    · rw [if_neg hpass, listed_cons_of_neg hpass]
      exact findIndex_eq i dir f hf

theorem getFileForIndex_eq {taken : ℕ} (hfree : taken < dfsFdMax) (dir : List Dirent) {i : ℕ} (hi : 1 ≤ i) :
    crSdCardGetFileForIndex taken i (some dir) (some filter) =
      (((listed dir filter)[i - 1]?).map Dirent.d_name, taken + 1) := by
  unfold crSdCardGetFileForIndex returnLongNameFile
  rw [if_neg (by omega), crOpenDir_of_free hfree]
  dsimp only
  rw [if_neg (by omega)]
  exact congrArg (fun r => (r, taken + 1)) (findIndex_eq i dir 0 hi)

end Index

/-! ## The descriptors -/

section Descriptors

variable {taken : ℕ}

theorem DirCall.taken_eq (taken : ℕ) (c : DirCall) :
    c.taken taken = if c.leaks ∧ taken < dfsFdMax then taken + 1 else taken := by
  cases c with
  | page dir page fileList maxCount filter =>
    unfold DirCall.taken crSdCardGetFileNameToBeShow crOpenDir crCloseDir DirCall.leaks
    cases dir <;> by_cases hfree : taken < dfsFdMax <;> simp [hfree]
  | index i dir filter =>
    unfold DirCall.taken crSdCardGetFileForIndex crOpenDir DirCall.leaks
    by_cases hneg : i < 0
    · simp [hneg, not_le.mpr hneg]
    · cases dir <;> by_cases hfree : taken < dfsFdMax <;> simp [hneg, hfree, not_lt.mp hneg]

/-- After any calls there is a descriptor left exactly if the calls for an index were few enough. -/
theorem taken_lt_iff (taken : ℕ) (calls : List DirCall) :
    calls.foldl DirCall.taken taken < dfsFdMax ↔ taken + calls.countP DirCall.leaks < dfsFdMax := by
  induction calls generalizing taken with
  | nil => rfl
  | cons c calls ih =>
    rw [List.foldl_cons, ih, DirCall.taken_eq, List.countP_cons]
    by_cases hleaks : c.leaks
    · by_cases hfree : taken < dfsFdMax
      · simp only [hleaks, hfree, and_self, if_true]
        omega
      · simp only [hleaks, hfree, and_false, if_false, if_true]
        omega
    · simp [hleaks]

end Descriptors

/-- **Directory paging.**  With pages of at least two entries and a descriptor left the pages make up the listing, the
index finds what is shown, and the count tells whether there is more. -/
theorem directory_paging {taken : ℕ} (hfree : taken < dfsFdMax) (dir : List Dirent) {n : ℕ} (filter : List UInt8)
    (hn : 2 ≤ n) : Paging taken dir n filter where
  array page fileList hroom := by rw [getFileNameToBeShow_eq hfree dir page (by omega) hroom]
  pages k := by
    simp only [shown_eq dir _ (show 1 ≤ n by omega)]
    exact flatMap_pages _ n k
  index i hi := by
    refine ⟨(listed dir filter)[i - 1]?, by rw [getFileForIndex_eq hfree dir hi], ?_⟩
    obtain ⟨i, rfl⟩ := Nat.exists_eq_add_of_le' hi
    rw [listing, List.getElem?_cons_succ, List.getElem?_map]
    rfl
  count page fileList hroom := by
    simp only [shown_eq dir _ (show 1 ≤ n by omega), getFileNameToBeShow_eq hfree dir page (show 1 ≤ n by omega) hroom]
    rw [flatMap_pages, List.length_take]
    have hlength : (listing dir filter).length = (listed dir filter).length + 1 := by
      rw [listing, List.length_cons, List.length_map]
    rw [← List.length_pos_iff, List.length_take, List.length_drop, hlength]
    omega

/-- Without a descriptor not even the first page has its entry for the parent directory. -/
theorem not_paging_of_full {taken : ℕ} (hfull : ¬ taken < dfsFdMax) (dir : List Dirent) {n : ℕ} (filter : List UInt8)
    (hn : 2 ≤ n) : ¬ Paging taken dir n filter := by
  intro h
  have harray := h.array 0 (List.replicate n ⟨[], false⟩) (by rw [List.length_replicate])
  rw [getFileNameToBeShow_of_full hfull, shown_eq dir 0 (show 1 ≤ n by omega)] at harray
  obtain ⟨n, rfl⟩ := Nat.exists_eq_add_of_le' (show 1 ≤ n by omega)
  rw [Nat.zero_mul, List.drop_zero, listing, List.take_succ_cons, List.replicate_succ] at harray
  have hhead := congrArg List.head? harray
  cases hhead

/-- **Directory paging in every run.**  After any calls of the two functions, on any directories, a directory is paged
exactly if the calls for an index have left a descriptor. -/
theorem directory_paging_iff (taken : ℕ) (calls : List DirCall) (dir : List Dirent) {n : ℕ} (filter : List UInt8)
    (hn : 2 ≤ n) :
    Paging (calls.foldl DirCall.taken taken) dir n filter ↔
      taken + calls.countP DirCall.leaks < dfsFdMax := by
  rw [← taken_lt_iff]
  exact ⟨fun h => by_contra fun hfull => not_paging_of_full hfull dir filter hn h,
    fun hfree => directory_paging hfree dir filter hn⟩

/-- A sub-directory and two files, one with the suffix, in pages of two. -/
def threeEntries : List Dirent :=
  [⟨2, 1, text "d" ++ [0], rfl⟩, ⟨1, 5, text "b.txt" ++ [0], rfl⟩, ⟨1, 7, text "a.gcode" ++ [0], rfl⟩]

/-- After a page and an index there are descriptors left. -/
theorem directory_paging_two :
    Paging (List.foldl DirCall.taken 0 [.page (some threeEntries) 0 [] 2 none, .index 2 (some threeEntries) none])
      threeEntries 2 (text "gcode") :=
  (directory_paging_iff 0 _ threeEntries _ le_rfl).mpr (by decide)

/-- Index 2 is the file with the suffix; the seventeenth call for it finds nothing. -/
theorem seventeenth_index_fails :
    let call : DirCall := .index 2 (some threeEntries) (some (text "gcode"))
    let index : ℕ → Option (List UInt8) := fun k =>
      (crSdCardGetFileForIndex ((List.replicate k call).foldl DirCall.taken 0) 2 (some threeEntries)
        (some (text "gcode"))).1
    index 15 = some (text "a.gcode" ++ [0]) ∧ index 16 = none ∧
      ¬ Paging ((List.replicate 16 call).foldl DirCall.taken 0) threeEntries 2 (text "gcode") := by
  intro call index
  have hleaks : ∀ k, List.countP DirCall.leaks (List.replicate k call) = k := fun k => by
    rw [List.countP_replicate, if_pos (by decide)]
  have hfull : ¬ (List.replicate 16 call).foldl DirCall.taken 0 < dfsFdMax := by
    rw [taken_lt_iff, hleaks]
    decide
  refine ⟨?_, ?_, not_paging_of_full hfull _ _ le_rfl⟩
  · have hfree : (List.replicate 15 call).foldl DirCall.taken 0 < dfsFdMax := by
      rw [taken_lt_iff, hleaks]
      decide
    exact (congrArg Prod.fst (getFileForIndex_eq hfree threeEntries (by decide))).trans (by decide)
  · change (crSdCardGetFileForIndex _ 2 (some threeEntries) (some (text "gcode"))).1 = none
    unfold crSdCardGetFileForIndex
    rw [crOpenDir_of_full hfull]
    rfl

end Cxsw.SdCard
