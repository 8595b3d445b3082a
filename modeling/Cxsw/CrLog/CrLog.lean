import Mathlib.Data.Fintype.Basic
import Cxsw.Lib.FixedText
import Cxsw.Lib.Run
import Cxsw.CrLog.LogFiles

/-!
# Cxsw.CrLog.CrLog — how many log files are kept (`CrLog/CrLog.c`)

`CrLogOpen` starts a new file for every device of its flags, and `CrLogWrite` starts one for a device whose file has
grown to ten megabytes.  The one removes the files over the limit before, the other after the new one is there.  What
has been removed, and whether a buffer was overrun, is kept on the side.

* `logCall`: the calls.
* `Kept`: what the retention is to achieve; `CallOk`: when a call does.
* `openLog_iff`, `writeLog_iff`: for one device, exactly then.
* `calls_kept`: in every run of such calls the files are kept as they should be.
-/

namespace Cxsw.Log

open CString

/-! ## The calls -/

section Defs

/-- Where a log goes. -/
inductive Device
  | uart
  | file
  | vcp
  | term
  deriving DecidableEq

/-- The bit of `LOG_TO_UART`, `LOG_TO_FILE`, `LOG_TO_VCP` and `LOG_TO_TERM`. -/
def Device.bit : Device → ℕ
  | .uart => 0
  | .file => 1
  | .vcp => 2
  | .term => 3

/-- The devices in the order of the code. -/
def devices : List Device := [.uart, .file, .vcp, .term]

instance : Fintype Device where
  elems := ⟨devices, by decide⟩
  complete dev := by cases dev <;> decide

/-- `UartName`, `FileName`, `VcpName` and `TermName`. -/
def logName : Device → List UInt8
  | .uart => text "UartLog"
  | .file => text "FileLog"
  | .vcp => text "VcpLog"
  | .term => text "TermLog"

/-- `%02d`. -/
def twoDigits (n : ℕ) : List UInt8 := ((Nat.toDigits 10 n).leftpad 2 '0').map ascii

/-- The name that `CatFileName` puts behind the path. -/
def catFileName (dev : Device) (tick : BitVec 32) : List UInt8 :=
  logName dev ++ text "_" ++ twoDigits (tick.toNat / 3600) ++ text "_" ++ twoDigits (tick.toNat % 3600 / 60) ++
    text "_" ++ twoDigits (tick.toNat % 3600 % 60) ++ text ".log"

/-- A path of log files.  The header has it end in a slash. -/
structure LogPath where
  text : List UInt8
  slash : text.getLast? = some (ascii '/')

/-- An open file: what `lseek` knows of it. -/
structure OpenFile (δ : Type*) where
  dir : δ
  name : List UInt8
  offset : ℕ
  size : ℕ

/-- A file that was removed, with the files it was chosen from and those that were being written. -/
structure Removal where
  file : LogFile
  among : List LogFile
  writing : List (List UInt8)

/-- The directories, the descriptors, `LogAttr`; the removals so far, and whether a buffer was overrun. -/
structure Logs (δ : Type*) where
  dirs : δ → Directory
  fd : Device → Option (OpenFile δ)
  path : Device → LogPath
  outPutDevice : BitVec 32
  removals : List Removal
  overrun : Bool

/-- What a call finds for a device: the tick, the times that the file system sets, and the place where it puts a new
file. -/
structure Env where
  tick : BitVec 32
  written : ℕ
  created : ℕ
  place : ℕ

variable {δ : Type*} [DecidableEq δ] (opendir : LogPath → δ)

/-- The files of a directory that are being written. -/
def Logs.writing (s : Logs δ) (dir : δ) : List (List UInt8) :=
  devices.filterMap fun dev => (s.fd dev).bind fun f => if f.dir = dir then some f.name else none

/-- The paths of the files fit `FilePath`. -/
def Fits (path : LogPath) (l : List LogFile) : Prop := ∀ f ∈ l, path.text.length + f.dName.length < 100

instance (path : LogPath) (l : List LogFile) : Decidable (Fits path l) := by
  unfold Fits
  infer_instance

/-- A round of `DeleteFileOverTheLimit`. -/
def removeOldest (s : Logs δ) (path : LogPath) (filter : List UInt8) : Logs δ :=
  let dir := opendir path
  let among := (s.dirs dir).carrying filter
  let s := { s with overrun := s.overrun || !decide (Fits path among) }
  match getMinModificationTimeFileName (s.dirs dir) filter with
  | none => s
  | some f =>
    { s with
      dirs := Function.update s.dirs dir ((s.dirs dir).remove f.dName)
      removals := s.removals ++ [⟨f, among, s.writing dir⟩] }

def deleteLoop (path : LogPath) (filter : List UInt8) : ℕ → Logs δ → Logs δ
  | 0, s => s
  | k + 1, s => deleteLoop path filter k (removeOldest opendir s path filter)

/-- `DeleteFileOverTheLimit`. -/
def deleteFileOverTheLimit (s : Logs δ) (path : LogPath) (filter : List UInt8) : Logs δ :=
  let count := countLogFile (s.dirs (opendir path)) filter
  if 4 ≤ count then deleteLoop opendir path filter (count - 4).toNat s else s

/-- `CatFileName` and the `open` of its name. -/
def openFile (s : Logs δ) (dev : Device) (path : LogPath) (env : Env) : Logs δ :=
  let dir := opendir path
  let name := catFileName dev env.tick
  { s with
    overrun := s.overrun || decide (100 ≤ path.text.length + name.length)
    dirs := Function.update s.dirs dir ((s.dirs dir).create name env.created env.place)
    fd := Function.update s.fd dev (some ⟨dir, name, 0, (((s.dirs dir).find name).map LogFile.size).getD 0⟩) }

/-- What `CrLogOpen` does for a device. -/
def openLog (s : Logs δ) (path : LogPath) (dev : Device) (env : Env) : Logs δ :=
  let s := { s with overrun := s.overrun || decide (80 ≤ path.text.length) }
  let s := deleteFileOverTheLimit opendir s path (logName dev)
  let s := openFile opendir s dev path env
  { s with path := Function.update s.path dev path }

/-- `CrLogOpen`. -/
def crLogOpen (s : Logs δ) (logPath : Option LogPath) (flags : BitVec 32) (env : Device → Env) : Logs δ :=
  match logPath with
  | none => s
  | some path =>
    if flags.toInt ≤ 0 then s
    else
      (devices.filter fun dev => flags.getLsbD dev.bit).foldl (fun s dev => openLog opendir s path dev (env dev))
        { s with outPutDevice := flags }

/-- `IsChangedFile` for `MAXFILELENGTH`; the length is an `S32`. -/
def isChangedFile (size : ℕ) : Bool := 10 * 1024 * 1024 ≤ Int.bmod size (2 ^ 32)

/-- The size of an open file after a write. -/
def OpenFile.grown (f : OpenFile δ) (n : ℕ) : ℕ := max f.size (f.offset + n)

/-- `CrUartWrite` and so on; then `lseek` goes to the end. -/
def writeFile (s : Logs δ) (dev : Device) (f : OpenFile δ) (n : ℕ) (env : Env) : Logs δ :=
  let size := f.grown n
  { s with
    dirs := Function.update s.dirs f.dir ((s.dirs f.dir).write f.name env.written size)
    fd := Function.update s.fd dev (some { f with offset := size, size := size }) }

/-- The log goes on in a new file. -/
def changeFile (s : Logs δ) (dev : Device) (env : Env) : Logs δ :=
  let s := openFile opendir s dev (s.path dev) env
  deleteFileOverTheLimit opendir s (s.path dev) (logName dev)

/-- What `CrLogWrite` does for a device. -/
def writeLog (s : Logs δ) (dev : Device) (n : ℕ) (env : Env) : Logs δ :=
  match s.fd dev with
  | none => s
  | some f =>
    let s := writeFile s dev f n env
    if isChangedFile (f.grown n) then changeFile opendir s dev env else s

/-- `CrLogWrite` opens the file again if it is not open; the other devices stay as they are. -/
def reopenFile (s : Logs δ) (env : Env) : Logs δ :=
  if (s.fd .file).isNone then
    { crLogOpen opendir s (some (s.path .file)) 2#32 (fun _ => env) with outPutDevice := s.outPutDevice }
  else s

/-- `CrLogWrite`. -/
def crLogWrite (s : Logs δ) (size : ℕ) (env : Device → Env) (reopen : Env) : Logs δ :=
  let s := writeLog opendir s .uart size (env .uart)
  let s :=
    if s.outPutDevice.getLsbD Device.file.bit then
      writeLog opendir (reopenFile opendir s reopen) .file size (env .file)
    else s
  let s := writeLog opendir s .vcp size (env .vcp)
  writeLog opendir s .term size (env .term)

/-- A call from outside. -/
inductive LogCall
  | open (logPath : Option LogPath) (flags : BitVec 32) (env : Device → Env)
  | write (size : ℕ) (env : Device → Env) (reopen : Env)

def logCall (s : Logs δ) : LogCall → Logs δ
  | .open logPath flags env => crLogOpen opendir s logPath flags env
  | .write size env reopen => crLogWrite opendir s size env reopen

/-- Nothing is open; the directories and `LogAttr` are as they may be. -/
def Fresh (s : Logs δ) : Prop := (∀ dev, s.fd dev = none) ∧ s.removals = [] ∧ s.overrun = false

/-- A removal took a file of the least time, and none that was being written. -/
def Removal.Right (r : Removal) : Prop := (∀ f ∈ r.among, r.file.mtime ≤ f.mtime) ∧ r.file.dName ∉ r.writing

instance (r : Removal) : Decidable r.Right := by
  unfold Removal.Right
  infer_instance

/-- What the retention is to achieve. -/
def Kept (s : Logs δ) : Prop :=
  s.overrun = false ∧ (∀ r ∈ s.removals, r.Right) ∧
    ∀ dev, ∀ f ∈ s.fd dev, ((s.dirs f.dir).carrying (logName dev)).length ≤ 4

instance (s : Logs δ) : Decidable (Kept s) := by
  unfold Kept
  infer_instance

end Defs

/-! ## When a call keeps the files -/

section Conditions

variable {δ : Type*} [DecidableEq δ] (opendir : LogPath → δ)

/-- The files over four can be removed so that the one of a name stays: the count is an `S16`, the paths fit, the times
zero come last as far as they are removed, and enough files come before the one that stays. -/
def Spares (path : LogPath) (name : List UInt8) (l : List LogFile) : Prop :=
  l.length < 2 ^ 15 ∧ (4 < l.length → Fits path l) ∧ min (zeros l) (l.length - 4) ≤ trailingZeros l ∧
    ∃ w ∈ l, w.dName = name ∧ l.length - 4 ≤ l.countP fun f => Before l f w

instance (path : LogPath) (name : List UInt8) (l : List LogFile) : Decidable (Spares path name l) := by
  unfold Spares
  infer_instance

/-- A log can be opened: there are three files at most, or the new one is there already and stays. -/
def OpenOk (s : Logs δ) (path : LogPath) (dev : Device) (env : Env) : Prop :=
  let l := (s.dirs (opendir path)).carrying (logName dev)
  let name := catFileName dev env.tick
  path.text.length < 80 ∧ path.text.length + name.length < 100 ∧ (l.length ≤ 3 ∨ Spares path name l)

instance (s : Logs δ) (path : LogPath) (dev : Device) (env : Env) : Decidable (OpenOk opendir s path dev env) := by
  unfold OpenOk
  dsimp only
  infer_instance

/-- A log can go on in a new file: with it in the directory, it stays. -/
def ChangeOk (s : Logs δ) (dev : Device) (env : Env) : Prop :=
  let path := s.path dev
  let name := catFileName dev env.tick
  path.text.length + name.length < 100 ∧
    Spares path name (((s.dirs (opendir path)).create name env.created env.place).carrying (logName dev))

instance (s : Logs δ) (dev : Device) (env : Env) : Decidable (ChangeOk opendir s dev env) := by
  unfold ChangeOk
  dsimp only
  infer_instance

def WriteOk (s : Logs δ) (dev : Device) (n : ℕ) (env : Env) : Prop :=
  ∀ f ∈ s.fd dev, isChangedFile (f.grown n) = true → ChangeOk opendir (writeFile s dev f n env) dev env

instance (s : Logs δ) (dev : Device) (n : ℕ) (env : Env) : Decidable (WriteOk opendir s dev n env) := by
  unfold WriteOk
  infer_instance

/-- The condition of `CrLogOpen`: that of every device when it is its turn. -/
def CrLogOpenOk (s : Logs δ) (logPath : Option LogPath) (flags : BitVec 32) (env : Device → Env) : Prop :=
  ∀ path ∈ logPath, 0 < flags.toInt →
    AllSteps (fun s dev => openLog opendir s path dev (env dev)) (fun s dev => OpenOk opendir s path dev (env dev))
      { s with outPutDevice := flags } (devices.filter fun dev => flags.getLsbD dev.bit)

instance (s : Logs δ) (logPath : Option LogPath) (flags : BitVec 32) (env : Device → Env) :
    Decidable (CrLogOpenOk opendir s logPath flags env) := by
  unfold CrLogOpenOk
  infer_instance

/-- The condition of `CrLogWrite`, likewise. -/
def CrLogWriteOk (s : Logs δ) (size : ℕ) (env : Device → Env) (reopen : Env) : Prop :=
  WriteOk opendir s .uart size (env .uart) ∧
    let s := writeLog opendir s .uart size (env .uart)
    let t :=
      if s.outPutDevice.getLsbD Device.file.bit then
        writeLog opendir (reopenFile opendir s reopen) .file size (env .file)
      else s
    (s.outPutDevice.getLsbD Device.file.bit = true →
      (s.fd .file = none → OpenOk opendir s (s.path .file) .file reopen) ∧
        WriteOk opendir (reopenFile opendir s reopen) .file size (env .file)) ∧
      WriteOk opendir t .vcp size (env .vcp) ∧
        WriteOk opendir (writeLog opendir t .vcp size (env .vcp)) .term size (env .term)

instance (s : Logs δ) (size : ℕ) (env : Device → Env) (reopen : Env) :
    Decidable (CrLogWriteOk opendir s size env reopen) := by
  unfold CrLogWriteOk
  dsimp only
  infer_instance

/-- The condition of a call. -/
def CallOk (s : Logs δ) : LogCall → Prop
  | .open logPath flags env => CrLogOpenOk opendir s logPath flags env
  | .write size env reopen => CrLogWriteOk opendir s size env reopen

instance (s : Logs δ) : (c : LogCall) → Decidable (CallOk opendir s c)
  | .open logPath flags env => inferInstanceAs (Decidable (CrLogOpenOk opendir s logPath flags env))
  | .write size env reopen => inferInstanceAs (Decidable (CrLogWriteOk opendir s size env reopen))

end Conditions

/-! ## Names -/

section Names

theorem lt_of_mem_twoDigits {n : ℕ} {b : UInt8} (h : b ∈ twoDigits n) : b.toNat < 58 := by
  obtain ⟨c, hc, rfl⟩ := List.mem_map.mp h
  have hdigit := (isDigit_toNat (isDigit_of_mem_leftpad c hc)).2
  have h9 : '0'.toNat + 9 = 57 := rfl
  show (c.toNat.toUInt8).toNat < 58
  rw [Nat.toUInt8, UInt8.toNat_ofNat']
  omega

/-- The bytes of a name are those of its log, or small. -/
theorem mem_catFileName {dev : Device} {tick : BitVec 32} {b : UInt8} (h : b ∈ catFileName dev tick) :
    b ∈ logName dev ∨ b ∈ text "_.log" ∨ b.toNat < 58 := by
  have hsmall : b ∈ text "_" → b ∈ text "_.log" := by
    intro h
    rw [List.mem_singleton.mp h]
    decide
  have hlog : b ∈ text ".log" → b ∈ text "_.log" := fun h => List.mem_cons_of_mem _ h
  unfold catFileName at h
  simp only [List.mem_append] at h
  rcases h with ((((((h | h) | h) | h) | h) | h) | h) | h
  · exact Or.inl h
  · exact Or.inr (Or.inl (hsmall h))
  · exact Or.inr (Or.inr (lt_of_mem_twoDigits h))
  · exact Or.inr (Or.inl (hsmall h))
  · exact Or.inr (Or.inr (lt_of_mem_twoDigits h))
  · exact Or.inr (Or.inl (hsmall h))
  · exact Or.inr (Or.inr (lt_of_mem_twoDigits h))
  · exact Or.inr (Or.inl (hlog h))

/-- **Names**: a file carries the name of its own log and of no other, whose first letter it lacks. -/
theorem strstr_catFileName {dev dev' : Device} {tick : BitVec 32} :
    strstr (catFileName dev tick) (logName dev') = true ↔ dev' = dev := by
  unfold strstr
  rw [decide_eq_true_eq]
  constructor
  · intro hinfix
    by_contra hne
    have hhead : (logName dev').headI ∈ catFileName dev tick := by
      refine hinfix.subset ?_
      cases dev' <;> decide
    rcases mem_catFileName hhead with h | h | h
    · revert h hne
      cases dev <;> cases dev' <;> decide
    · revert h
      cases dev' <;> decide
    · revert h
      cases dev' <;> decide
  · rintro rfl
    unfold catFileName
    simp only [List.append_assoc]
    exact (List.prefix_append _ _).isInfix

theorem strstr_catFileName_of_ne {dev dev' : Device} {tick : BitVec 32} (h : dev' ≠ dev) :
    strstr (catFileName dev tick) (logName dev') = false := by
  rw [Bool.eq_false_iff]
  exact fun hc => h (strstr_catFileName.mp hc)

end Names

/-! ## Deletion -/

section Deletion

variable {δ : Type*} [DecidableEq δ] {opendir : LogPath → δ} {s t : Logs δ} {path : LogPath} {filter name : List UInt8}
  {k : ℕ}

/-- What `k` removals come to. -/
structure Deleted (s t : Logs δ) (dir : δ) (path : LogPath) (filter : List UInt8) (k : ℕ) : Prop where
  fd : t.fd = s.fd
  paths : t.path = s.path
  dirs : ∀ dir' ≠ dir, t.dirs dir' = s.dirs dir'
  files : (t.dirs dir).files.Sublist (s.dirs dir).files
  carrying : (t.dirs dir).carrying filter = dropPicked oldest k ((s.dirs dir).carrying filter)
  removals : t.removals = s.removals ++
    (picks oldest k ((s.dirs dir).carrying filter)).map fun p => ⟨p.1, p.2, s.writing dir⟩
  overrun : t.overrun = (s.overrun || decide (0 < k ∧ ¬Fits path ((s.dirs dir).carrying filter)))

theorem removeOldest_deleted (h : (s.dirs (opendir path)).carrying filter ≠ []) :
    Deleted s (removeOldest opendir s path filter) (opendir path) path filter 1 := by
  obtain ⟨e, he⟩ := oldest_picks.exists_some h
  have heq : removeOldest opendir s path filter =
      { s with
        overrun := s.overrun || !decide (Fits path ((s.dirs (opendir path)).carrying filter))
        dirs := Function.update s.dirs (opendir path) ((s.dirs (opendir path)).remove e.dName)
        removals := s.removals ++ [⟨e, (s.dirs (opendir path)).carrying filter, s.writing (opendir path)⟩] } := by
    unfold removeOldest getMinModificationTimeFileName
    dsimp only
    rw [he]
    rfl
  rw [heq]
  refine ⟨rfl, rfl, fun dir' hne => Function.update_of_ne hne _ _, ?_, ?_, ?_, ?_⟩
  · dsimp only
    rw [Function.update_self]
    exact List.filter_sublist
  · dsimp only
    rw [Function.update_self, dropPicked_some he, carrying_remove (oldest_picks.mem he)]
    rfl
  · rw [picks_some he]
    rfl
  · simp

theorem Logs.writing_congr {s t : Logs δ} (h : t.fd = s.fd) (dir : δ) : t.writing dir = s.writing dir := by
  unfold Logs.writing
  rw [h]

/-- **The loop**: it removes what the search finds, again and again. -/
theorem deleteLoop_deleted : ∀ {k : ℕ} {s : Logs δ}, k ≤ ((s.dirs (opendir path)).carrying filter).length →
    Deleted s (deleteLoop opendir path filter k s) (opendir path) path filter k
  | 0, s, _ => ⟨rfl, rfl, fun _ _ => rfl, List.Sublist.refl _, rfl, by simp [picks, deleteLoop], by simp [deleteLoop]⟩
  | k + 1, s, hk => by
    have hne : (s.dirs (opendir path)).carrying filter ≠ [] := List.ne_nil_of_length_pos (by omega)
    obtain ⟨e, he⟩ := oldest_picks.exists_some hne
    have hone := removeOldest_deleted hne
    have hcarrying := hone.carrying
    rw [dropPicked_some he, dropPicked] at hcarrying
    have hlen := List.length_erase_of_mem (oldest_picks.mem he)
    have hrest := @deleteLoop_deleted k (removeOldest opendir s path filter) (by rw [hcarrying, hlen]; omega)
    have hsubset : Fits path ((s.dirs (opendir path)).carrying filter) →
        Fits path (((s.dirs (opendir path)).carrying filter).erase e) :=
      fun h f hf => h f (List.mem_of_mem_erase hf)
    rw [deleteLoop]
    refine ⟨hrest.fd.trans hone.fd, hrest.paths.trans hone.paths,
      fun dir' hdir => (hrest.dirs dir' hdir).trans (hone.dirs dir' hdir), hrest.files.trans hone.files, ?_, ?_, ?_⟩
    · rw [hrest.carrying, hcarrying, dropPicked_some he]
    · rw [hrest.removals, hone.removals, hcarrying, Logs.writing_congr hone.fd, picks_some he, picks_some he, picks,
        List.append_assoc, List.map_cons, List.map_cons, List.map_nil, List.singleton_append]
    · rw [hrest.overrun, hone.overrun, hcarrying, Bool.or_assoc]
      congr 1
      by_cases hfits : Fits path ((s.dirs (opendir path)).carrying filter)
      · simp [hfits, hsubset hfits]
      · simp [hfits]

/-- How many files are removed, of a count that is an `S16`. -/
def deleteCount (n : ℕ) : ℕ := (Int.bmod n (2 ^ 16) - 4).toNat

theorem deleteCount_le (n : ℕ) : deleteCount n ≤ n := by
  unfold deleteCount
  rw [Int.bmod_def]
  omega

theorem deleteCount_of_lt {n : ℕ} (h : n < 2 ^ 15) : deleteCount n = n - 4 := by
  unfold deleteCount
  rw [Int.bmod_def]
  omega

theorem lt_sub_deleteCount {n : ℕ} (h : ¬n < 2 ^ 15) : 4 < n - deleteCount n := by
  unfold deleteCount
  rw [Int.bmod_def]
  omega

theorem delete_deleted (opendir : LogPath → δ) (s : Logs δ) (path : LogPath) (filter : List UInt8) :
    Deleted s (deleteFileOverTheLimit opendir s path filter) (opendir path) path filter
      (deleteCount ((s.dirs (opendir path)).carrying filter).length) := by
  unfold deleteFileOverTheLimit
  dsimp only
  by_cases hcount : 4 ≤ countLogFile (s.dirs (opendir path)) filter
  · rw [if_pos hcount]
    exact deleteLoop_deleted (deleteCount_le _)
  · have hzero : deleteCount ((s.dirs (opendir path)).carrying filter).length = 0 := by
      unfold countLogFile at hcount
      unfold deleteCount
      omega
    rw [if_neg hcount, hzero]
    exact deleteLoop_deleted (Nat.zero_le _)

theorem spares_iff {l : List LogFile} (hnodup : l.Nodup) :
    Spares path name l ↔ l.length - deleteCount l.length ≤ 4 ∧ ¬(0 < deleteCount l.length ∧ ¬Fits path l) ∧
      LeastEach (deleteCount l.length) l ∧ ∃ w ∈ dropPicked oldest (deleteCount l.length) l, w.dName = name := by
  unfold Spares
  by_cases hlt : l.length < 2 ^ 15
  · have hk : l.length - 4 ≤ l.length := Nat.sub_le _ _
    rw [deleteCount_of_lt hlt, picks_least_iff hnodup hk]
    have hfits : (4 < l.length → Fits path l) ↔ ¬(0 < l.length - 4 ∧ ¬Fits path l) := by
      rw [not_and, not_not, Nat.sub_pos_iff_lt]
    rw [← hfits]
    constructor
    · rintro ⟨-, hfit, hzeros, w, hw, hname, hcount⟩
      exact ⟨by omega, hfit, hzeros, w, (mem_survivors_iff hnodup hk hzeros hw).mpr hcount, hname⟩
    · rintro ⟨-, hfit, hzeros, w, hw, hname⟩
      have hwl := (dropPicked_sublist _ _).subset hw
      exact ⟨hlt, hfit, hzeros, w, hwl, hname, (mem_survivors_iff hnodup hk hzeros hwl).mp hw⟩
  · constructor
    · exact fun h => absurd h.1 hlt
    · exact fun h => absurd h.1 (not_le.mpr (lt_sub_deleteCount hlt))

end Deletion

/-! ## One device -/

section OneDevice

variable {δ : Type*} [DecidableEq δ] {opendir : LogPath → δ} {s t : Logs δ} {path : LogPath} {name : List UInt8}
  {dir : δ} {dev dev' : Device} {env : Env} {k n : ℕ}

/-- The files that are written have the names of their logs, and are where `LogAttr` says. -/
def Named (opendir : LogPath → δ) (s : Logs δ) : Prop :=
  ∀ dev, ∀ f ∈ s.fd dev, (∃ tick, f.name = catFileName dev tick) ∧ opendir (s.path dev) = f.dir

theorem mem_writing : name ∈ s.writing dir ↔ ∃ dev, ∃ f ∈ s.fd dev, f.dir = dir ∧ f.name = name := by
  unfold Logs.writing
  rw [List.mem_filterMap]
  constructor
  · rintro ⟨dev, -, h⟩
    obtain ⟨f, hf, hname⟩ := Option.bind_eq_some_iff.mp h
    split_ifs at hname with hdir
    exact ⟨dev, f, hf, hdir, Option.some.inj hname⟩
  · rintro ⟨dev, f, hf, hdir, hname⟩
    refine ⟨dev, Finset.mem_univ dev, ?_⟩
    rw [show s.fd dev = some f from hf, Option.bind_some, if_pos hdir, hname]

/-- Of a log's files only its own descriptor can be on one. -/
theorem mem_writing_iff (hnames : ∀ dev, ∀ f ∈ s.fd dev, ∃ tick, f.name = catFileName dev tick)
    (hname : strstr name (logName dev) = true) :
    name ∈ s.writing dir ↔ ∃ f ∈ s.fd dev, f.dir = dir ∧ f.name = name := by
  rw [mem_writing]
  constructor
  · rintro ⟨dev', f, hf, hdir, rfl⟩
    obtain ⟨tick, htick⟩ := hnames dev' f hf
    rw [htick, strstr_catFileName] at hname
    subst hname
    exact ⟨f, hf, hdir, rfl⟩
  · exact fun ⟨f, hf, h⟩ => ⟨dev, f, hf, h⟩

/-- Whether the removals of a deletion are right. -/
theorem Deleted.right_iff {filter : List UInt8} (h : Deleted s t dir path filter k) (hs : ∀ r ∈ s.removals, r.Right) :
    (∀ r ∈ t.removals, r.Right) ↔ LeastEach k ((s.dirs dir).carrying filter) ∧
      ∀ p ∈ picks oldest k ((s.dirs dir).carrying filter), p.1.dName ∉ s.writing dir := by
  rw [h.removals]
  constructor
  · intro hall
    have hp : ∀ p ∈ picks oldest k ((s.dirs dir).carrying filter), Removal.Right ⟨p.1, p.2, s.writing dir⟩ :=
      fun p hp => hall _ (List.mem_append_right _ (List.mem_map_of_mem hp))
    exact ⟨fun p hmem => (hp p hmem).1, fun p hmem => (hp p hmem).2⟩
  · rintro ⟨hleast, hwriting⟩ r hr
    rcases List.mem_append.mp hr with hr | hr
    · exact hs r hr
    · obtain ⟨p, hp, rfl⟩ := List.mem_map.mp hr
      exact ⟨hleast p hp, hwriting p hp⟩

theorem Deleted.count_le {filter : List UInt8} (h : Deleted s t dir path filter k)
    (hs : ∀ f ∈ s.fd dev, ((s.dirs f.dir).carrying (logName dev)).length ≤ 4) :
    ∀ f ∈ t.fd dev, ((t.dirs f.dir).carrying (logName dev)).length ≤ 4 := by
  rw [h.fd]
  intro f hf
  refine le_trans ?_ (hs f hf)
  by_cases hdir : f.dir = dir
  · rw [hdir]
    exact (carrying_sublist h.files _).length_le
  · rw [h.dirs _ hdir]

theorem openFile_fd_self : (openFile opendir s dev path env).fd dev = some ⟨opendir path, catFileName dev env.tick, 0,
    (((s.dirs (opendir path)).find (catFileName dev env.tick)).map LogFile.size).getD 0⟩ :=
  Function.update_self ..

theorem openFile_fd_of_ne (h : dev' ≠ dev) : (openFile opendir s dev path env).fd dev' = s.fd dev' :=
  Function.update_of_ne h ..

theorem openFile_dirs_self : (openFile opendir s dev path env).dirs (opendir path) =
    (s.dirs (opendir path)).create (catFileName dev env.tick) env.created env.place :=
  Function.update_self ..

theorem openFile_count_le (h : dev' ≠ dev) (hs : ∀ f ∈ s.fd dev', ((s.dirs f.dir).carrying (logName dev')).length ≤ 4) :
    ∀ f ∈ (openFile opendir s dev path env).fd dev',
      (((openFile opendir s dev path env).dirs f.dir).carrying (logName dev')).length ≤ 4 := by
  rw [openFile_fd_of_ne h]
  intro f hf
  refine le_trans (le_of_eq ?_) (hs f hf)
  unfold openFile
  dsimp only
  by_cases hdir : f.dir = opendir path
  · rw [hdir, Function.update_self]
    by_cases hmem : catFileName dev env.tick ∈ (s.dirs (opendir path)).files.map LogFile.dName
    · rw [create_of_mem hmem]
    · rw [carrying_create hmem, strstr_catFileName_of_ne h, if_neg Bool.false_ne_true, Nat.add_zero]
  · rw [Function.update_of_ne hdir]

omit [DecidableEq δ] in
/-- The files of all logs are few exactly if those of a log are. -/
theorem counts_iff (hs : ∀ dev', dev' ≠ dev → ∀ f ∈ s.fd dev', ((s.dirs f.dir).carrying (logName dev')).length ≤ 4)
    {f : OpenFile δ} (hf : s.fd dev = some f) :
    (∀ dev', ∀ f ∈ s.fd dev', ((s.dirs f.dir).carrying (logName dev')).length ≤ 4) ↔
      ((s.dirs f.dir).carrying (logName dev)).length ≤ 4 := by
  constructor
  · exact fun h => h dev f hf
  · intro h dev' g hg
    by_cases hdev : dev' = dev
    · subst hdev
      rw [hf] at hg
      rw [← Option.some.inj hg]
      exact h
    · exact hs dev' hdev g hg

/-- A new file that was not there adds to the count. -/
theorem length_create_le {d : Directory} {mtime place : ℕ} {tick : BitVec 32} :
    ((d.create (catFileName dev tick) mtime place).carrying (logName dev)).length ≤ 4 ↔
      (d.carrying (logName dev)).length ≤ 3 ∨ (d.carrying (logName dev)).length ≤ 4 ∧
        ∃ w ∈ d.carrying (logName dev), w.dName = catFileName dev tick := by
  have hname : strstr (catFileName dev tick) (logName dev) = true := strstr_catFileName.mpr rfl
  rw [← exists_carrying_iff hname]
  by_cases hmem : catFileName dev tick ∈ d.files.map LogFile.dName
  · rw [create_of_mem hmem, and_iff_left hmem]
    omega
  · rw [carrying_create hmem, if_pos hname]
    simp only [hmem, and_false, or_false]
    omega

/-- The states in which the files are kept. -/
def Inv (opendir : LogPath → δ) (s : Logs δ) : Prop := Kept s ∧ Named opendir s

/-- No descriptor is on a file that goes: with the log open there, there are four files at most. -/
theorem opened_not_writing (h : Inv opendir s) :
    ∀ p ∈ picks oldest (deleteCount ((s.dirs dir).carrying (logName dev)).length) ((s.dirs dir).carrying (logName dev)),
      p.1.dName ∉ s.writing dir := by
  obtain ⟨⟨-, -, hcounts⟩, hnamed⟩ := h
  intro p hp hmem
  have hcarries : strstr p.1.dName (logName dev) = true := (List.mem_filter.mp (mem_of_mem_picks oldest_picks hp)).2
  obtain ⟨f, hf, hdir, -⟩ := (mem_writing_iff (fun dev f hf => (hnamed dev f hf).1) hcarries).mp hmem
  have hfour := hcounts dev f hf
  rw [hdir] at hfour
  rw [deleteCount_of_lt (by omega), Nat.sub_eq_zero_of_le hfour] at hp
  exact absurd hp List.not_mem_nil

/-- The files behind the deletion and the new file. -/
theorem opened_iff (hcounts : ∀ dev, ∀ f ∈ s.fd dev, ((s.dirs f.dir).carrying (logName dev)).length ≤ 4)
    (hdel : Deleted s t (opendir path) path (logName dev) k)
    (hk : k ≤ ((s.dirs (opendir path)).carrying (logName dev)).length) :
    (∀ dev', ∀ f ∈ (openFile opendir t dev path env).fd dev',
      (((openFile opendir t dev path env).dirs f.dir).carrying (logName dev')).length ≤ 4) ↔
      (((s.dirs (opendir path)).carrying (logName dev)).length - k ≤ 3 ∨
        ((s.dirs (opendir path)).carrying (logName dev)).length - k ≤ 4 ∧
          ∃ w ∈ dropPicked oldest k ((s.dirs (opendir path)).carrying (logName dev)),
            w.dName = catFileName dev env.tick) := by
  have hothers : ∀ dev', dev' ≠ dev → ∀ f ∈ (openFile opendir t dev path env).fd dev',
      (((openFile opendir t dev path env).dirs f.dir).carrying (logName dev')).length ≤ 4 :=
    fun dev' hdev => openFile_count_le hdev (hdel.count_le (hcounts dev'))
  rw [counts_iff hothers openFile_fd_self, openFile_dirs_self, length_create_le, hdel.carrying,
    length_dropPicked oldest_picks hk]

omit [DecidableEq δ] in
/-- `OpenOk`, in terms of what the deletion does. -/
theorem openOk_iff : OpenOk opendir s path dev env ↔
    path.text.length < 80 ∧ path.text.length + (catFileName dev env.tick).length < 100 ∧
      ∀ l, l = (s.dirs (opendir path)).carrying (logName dev) → ∀ k, k = deleteCount l.length →
        ¬(0 < k ∧ ¬Fits path l) ∧ LeastEach k l ∧
          (l.length - k ≤ 3 ∨ l.length - k ≤ 4 ∧ ∃ w ∈ dropPicked oldest k l, w.dName = catFileName dev env.tick) := by
  unfold OpenOk
  dsimp only
  simp only [forall_eq]
  refine and_congr_right fun _ => and_congr_right fun _ => ?_
  have hnodup := carrying_nodup (s.dirs (opendir path)) (logName dev)
  generalize (s.dirs (opendir path)).carrying (logName dev) = l at hnodup ⊢
  rw [spares_iff hnodup]
  by_cases hthree : l.length ≤ 3
  · have hzero : deleteCount l.length = 0 := by rw [deleteCount_of_lt (by omega)]; omega
    have hleast : LeastEach 0 l := fun p hp => absurd hp List.not_mem_nil
    rw [hzero]
    exact iff_of_true (Or.inl hthree) ⟨fun h => absurd h.1 (lt_irrefl 0), hleast, Or.inl hthree⟩
  · have hfour : ¬l.length - deleteCount l.length ≤ 3 := by
      by_cases hlt : l.length < 2 ^ 15
      · rw [deleteCount_of_lt hlt]
        omega
      · exact fun h => absurd (lt_sub_deleteCount hlt) (by omega)
    rw [or_iff_right hfour, or_iff_right hthree]
    constructor
    · rintro ⟨hle, hfits, hleast, hw⟩
      exact ⟨hfits, hleast, hle, hw⟩
    · rintro ⟨hfits, hleast, hle, hw⟩
      exact ⟨hle, hfits, hleast, hw⟩

theorem opened_overrun (hover : s.overrun = false)
    (hdel : Deleted { s with overrun := s.overrun || decide (80 ≤ path.text.length) } t (opendir path) path
      (logName dev)
      k) : (openFile opendir t dev path env).overrun = false ↔ path.text.length < 80 ∧
      ¬(0 < k ∧ ¬Fits path ((s.dirs (opendir path)).carrying (logName dev))) ∧
        path.text.length + (catFileName dev env.tick).length < 100 := by
  unfold openFile
  dsimp only
  rw [hdel.overrun, hover]
  simp only [Bool.false_or, Bool.or_eq_false_iff, decide_eq_false_iff_not, not_le, and_assoc]

theorem opened_kept_iff (h : Inv opendir s)
    (hdel : Deleted { s with overrun := s.overrun || decide (80 ≤ path.text.length) } t (opendir path) path
      (logName dev)
      (deleteCount ((s.dirs (opendir path)).carrying (logName dev)).length)) :
    Kept { openFile opendir t dev path env with
      path := Function.update (openFile opendir t dev path env).path dev path } ↔ OpenOk opendir s path dev env := by
  have hnot := @opened_not_writing δ _ opendir s (opendir path) dev h
  obtain ⟨⟨hover, hright, hcounts⟩, -⟩ := h
  have hrights := (hdel.right_iff hright).trans (and_iff_left hnot)
  have hoverrun := @opened_overrun δ _ opendir s t path dev env _ hover hdel
  have hcount := @opened_iff δ _ opendir { s with overrun := s.overrun || decide (80 ≤ path.text.length) } t path dev
    env
    _ hcounts hdel (deleteCount_le _)
  have hkept : Kept { openFile opendir t dev path env with
      path := Function.update (openFile opendir t dev path env).path dev path } ↔
      (openFile opendir t dev path env).overrun = false ∧ (∀ r ∈ t.removals, r.Right) ∧
        ∀ dev', ∀ f ∈ (openFile opendir t dev path env).fd dev',
          (((openFile opendir t dev path env).dirs f.dir).carrying (logName dev')).length ≤ 4 := Iff.rfl
  rw [hkept, hoverrun, hrights, hcount, openOk_iff]
  simp only [forall_eq]
  constructor
  · rintro ⟨⟨hpath, hfits, hname⟩, hleast, hle⟩
    exact ⟨hpath, hname, hfits, hleast, hle⟩
  · rintro ⟨hpath, hname, hfits, hleast, hle⟩
    exact ⟨⟨hpath, hfits, hname⟩, hleast, hle⟩

/-- **A log is opened**: the files are kept exactly under the condition. -/
theorem openLog_kept_iff (h : Inv opendir s) :
    Kept (openLog opendir s path dev env) ↔ OpenOk opendir s path dev env :=
  opened_kept_iff h (delete_deleted opendir _ path (logName dev))

/-- The new file is not removed exactly if it is left. -/
theorem changed_not_writing_iff (hnamed : Named opendir s) :
    (∀ p ∈ picks oldest k (((openFile opendir s dev path env).dirs (opendir path)).carrying (logName dev)),
      p.1.dName ∉ (openFile opendir s dev path env).writing (opendir path)) ↔
      ∃ w ∈ dropPicked oldest k (((openFile opendir s dev path env).dirs (opendir path)).carrying (logName dev)),
        w.dName = catFileName dev env.tick := by
  have hnames : ∀ dev', ∀ f ∈ (openFile opendir s dev path env).fd dev', ∃ tick, f.name = catFileName dev' tick := by
    intro dev' f hf
    by_cases hdev : dev' = dev
    · subst hdev
      rw [openFile_fd_self] at hf
      rw [← Option.some.inj hf]
      exact ⟨env.tick, rfl⟩
    · rw [openFile_fd_of_ne hdev] at hf
      exact (hnamed dev' f hf).1
  have hname : strstr (catFileName dev env.tick) (logName dev) = true := strstr_catFileName.mpr rfl
  have hnew : catFileName dev env.tick ∈
      ((openFile opendir s dev path env).dirs (opendir path)).files.map LogFile.dName := by
    rw [openFile_dirs_self]
    exact mem_create _ _ _ _
  obtain ⟨w, hw, hwname⟩ := (exists_carrying_iff hname).mp hnew
  have hself : catFileName dev env.tick ∈ (openFile opendir s dev path env).writing (opendir path) :=
    mem_writing.mpr ⟨dev, _, openFile_fd_self, rfl, rfl⟩
  constructor
  · intro hnot
    rcases mem_dropPicked_or_picks hw with hleft | ⟨p, hp, hpw⟩
    · exact ⟨w, hleft, hwname⟩
    · refine absurd ?_ (hnot p hp)
      rw [hpw, hwname]
      exact hself
  · rintro ⟨v, hv, hvname⟩ p hp hmem
    have hpl := mem_of_mem_picks oldest_picks hp
    have hcarries : strstr p.1.dName (logName dev) = true := (List.mem_filter.mp hpl).2
    obtain ⟨f, hf, -, hfname⟩ := (mem_writing_iff hnames hcarries).mp hmem
    rw [openFile_fd_self] at hf
    rw [← Option.some.inj hf] at hfname
    have hpv : p.1 = v := Directory.eq_of_dName (mem_files_of_mem_carrying hpl)
      (mem_files_of_mem_carrying ((dropPicked_sublist _ _).subset hv)) (hfname.symm.trans hvname.symm)
    exact not_mem_dropPicked oldest_picks (carrying_nodup _ _) hp (hpv ▸ hv)

/-- The state of a log that has gone on in a new file. -/
theorem changed_kept_iff (h : Inv opendir s)
    (hdel : Deleted (openFile opendir s dev path env) t (opendir path) path (logName dev)
      (deleteCount (((openFile opendir s dev path env).dirs (opendir path)).carrying (logName dev)).length)) :
    Kept t ↔ path.text.length + (catFileName dev env.tick).length < 100 ∧
      Spares path (catFileName dev env.tick)
        (((openFile opendir s dev path env).dirs (opendir path)).carrying (logName dev)) := by
  obtain ⟨⟨hover, hright, hcounts⟩, hnamed⟩ := h
  have hrights := (hdel.right_iff hright).trans (and_congr_right' (changed_not_writing_iff hnamed))
  have hoverrun : t.overrun = false ↔ path.text.length + (catFileName dev env.tick).length < 100 ∧
      ¬(0 < deleteCount (((openFile opendir s dev path env).dirs (opendir path)).carrying (logName dev)).length ∧
        ¬Fits path (((openFile opendir s dev path env).dirs (opendir path)).carrying (logName dev))) := by
    have hopen : (openFile opendir s dev path env).overrun =
        decide (100 ≤ path.text.length + (catFileName dev env.tick).length) := by
      unfold openFile
      dsimp only
      rw [hover, Bool.false_or]
    rw [hdel.overrun, hopen, Bool.or_eq_false_iff, decide_eq_false_iff_not, decide_eq_false_iff_not, not_le]
  have hothers : ∀ dev', dev' ≠ dev → ∀ f ∈ t.fd dev', ((t.dirs f.dir).carrying (logName dev')).length ≤ 4 :=
    fun dev' hdev => hdel.count_le (openFile_count_le hdev (hcounts dev'))
  have hself : t.fd dev = some _ := (congrFun hdel.fd dev).trans openFile_fd_self
  have hcount := counts_iff hothers hself
  dsimp only at hcount
  rw [hdel.carrying, length_dropPicked oldest_picks (deleteCount_le _)] at hcount
  unfold Kept
  rw [hoverrun, hrights, hcount, spares_iff (carrying_nodup _ _)]
  constructor
  · rintro ⟨⟨hname, hfits⟩, ⟨hleast, hw⟩, hle⟩
    exact ⟨hname, hle, hfits, hleast, hw⟩
  · rintro ⟨hname, hle, hfits, hleast, hw⟩
    exact ⟨⟨hname, hfits⟩, ⟨hleast, hw⟩, hle⟩

theorem changeFile_eq : changeFile opendir s dev env =
    deleteFileOverTheLimit opendir (openFile opendir s dev (s.path dev) env) (s.path dev) (logName dev) := rfl

/-- **A log goes on in a new file**: the files are kept exactly under the condition. -/
theorem changeFile_kept_iff (h : Inv opendir s) :
    Kept (changeFile opendir s dev env) ↔ ChangeOk opendir s dev env := by
  rw [changeFile_eq, changed_kept_iff h (delete_deleted opendir _ (s.path dev) (logName dev)), openFile_dirs_self,
    ChangeOk]

theorem openFile_named (h : Named opendir s) :
    Named opendir { openFile opendir s dev path env with
      path := Function.update (openFile opendir s dev path env).path dev path } := by
  intro dev' f hf
  by_cases hdev : dev' = dev
  · subst hdev
    have hself : f = _ := (Option.some.inj (openFile_fd_self.symm.trans hf)).symm
    rw [hself]
    dsimp only
    rw [Function.update_self]
    exact ⟨⟨env.tick, rfl⟩, rfl⟩
  · dsimp only at hf ⊢
    rw [openFile_fd_of_ne hdev] at hf
    rw [Function.update_of_ne hdev]
    exact h dev' f hf

theorem Deleted.named {filter : List UInt8} (h : Deleted s t dir path filter k) (hs : Named opendir s) :
    Named opendir t := by
  unfold Named
  rw [h.fd, h.paths]
  exact hs

theorem openLog_named (h : Named opendir s) : Named opendir (openLog opendir s path dev env) := by
  have hdel := delete_deleted opendir { s with overrun := s.overrun || decide (80 ≤ path.text.length) } path
    (logName dev)
  exact openFile_named (hdel.named h)

theorem changeFile_named (h : Named opendir s) : Named opendir (changeFile opendir s dev env) := by
  rw [changeFile_eq]
  refine (delete_deleted opendir _ (s.path dev) (logName dev)).named ?_
  have hopen := @openFile_named δ _ opendir s (s.path dev) dev env h
  rw [show (openFile opendir s dev (s.path dev) env).path = s.path from rfl, Function.update_eq_self] at hopen
  exact hopen

theorem writeFile_inv {f : OpenFile δ} (hf : s.fd dev = some f) (h : Inv opendir s) :
    Inv opendir (writeFile s dev f n env) := by
  obtain ⟨⟨hover, hright, hcounts⟩, hnamed⟩ := h
  have hfd : ∀ dev', ∀ g ∈ (writeFile s dev f n env).fd dev', ∃ g' ∈ s.fd dev', g.name = g'.name ∧ g.dir = g'.dir := by
    intro dev' g hg
    unfold writeFile at hg
    dsimp only at hg
    by_cases hdev : dev' = dev
    · subst hdev
      rw [Function.update_self] at hg
      refine ⟨f, hf, ?_⟩
      rw [← Option.some.inj hg]
      exact ⟨rfl, rfl⟩
    · rw [Function.update_of_ne hdev] at hg
      exact ⟨g, hg, rfl, rfl⟩
  refine ⟨⟨hover, hright, fun dev' g hg => ?_⟩, fun dev' g hg => ?_⟩
  · obtain ⟨g', hg', -, hdir⟩ := hfd dev' g hg
    rw [hdir]
    refine le_trans (le_of_eq ?_) (hcounts dev' g' hg')
    unfold writeFile
    dsimp only
    by_cases hsame : g'.dir = f.dir
    · rw [hsame, Function.update_self, carrying_write]
    · rw [Function.update_of_ne hsame]
  · obtain ⟨g', hg', hname, hdir⟩ := hfd dev' g hg
    rw [hname, hdir]
    exact hnamed dev' g' hg'

/-- **A log is written**: the files are kept exactly under the condition. -/
theorem writeLog_kept_iff (h : Inv opendir s) :
    Kept (writeLog opendir s dev n env) ↔ WriteOk opendir s dev n env := by
  unfold writeLog WriteOk
  cases hf : s.fd dev with
  | none => exact iff_of_true h.1 fun f hnone => absurd hnone (by simp)
  | some f =>
    have hw := @writeFile_inv δ _ opendir s dev env n f hf h
    dsimp only
    by_cases hchanged : isChangedFile (f.grown n) = true
    · rw [if_pos hchanged, changeFile_kept_iff hw]
      constructor
      · intro hok g hg _
        rw [← Option.some.inj hg]
        exact hok
      · exact fun hall => hall f rfl hchanged
    · rw [if_neg hchanged]
      refine iff_of_true hw.1 fun g hg hg' => ?_
      rw [← Option.some.inj hg] at hg'
      exact absurd hg' hchanged

theorem writeLog_named (h : Inv opendir s) : Named opendir (writeLog opendir s dev n env) := by
  unfold writeLog
  cases hf : s.fd dev with
  | none => exact h.2
  | some f =>
    have hw := @writeFile_inv δ _ opendir s dev env n f hf h
    dsimp only
    split_ifs
    · exact changeFile_named hw.2
    · exact hw.2

/-- **Step lemma** of a device that is opened. -/
theorem openLog_inv (h : Inv opendir s) (hok : OpenOk opendir s path dev env) :
    Inv opendir (openLog opendir s path dev env) :=
  ⟨(openLog_kept_iff h).mpr hok, openLog_named h.2⟩

/-- **Step lemma** of a device that is written. -/
theorem writeLog_inv (h : Inv opendir s) (hok : WriteOk opendir s dev n env) :
    Inv opendir (writeLog opendir s dev n env) :=
  ⟨(writeLog_kept_iff h).mpr hok, writeLog_named h⟩

end OneDevice

/-! ## Runs -/

section Runs

variable {δ : Type*} [DecidableEq δ] {opendir : LogPath → δ} {s : Logs δ}

theorem crLogOpen_inv {logPath : Option LogPath} {flags : BitVec 32} {env : Device → Env} (h : Inv opendir s)
    (hok : CrLogOpenOk opendir s logPath flags env) : Inv opendir (crLogOpen opendir s logPath flags env) := by
  cases logPath with
  | none => exact h
  | some path =>
    unfold crLogOpen
    dsimp only
    by_cases hflags : flags.toInt ≤ 0
    · rw [if_pos hflags]
      exact h
    · rw [if_neg hflags]
      have hrun := Run.of_allSteps (hok path rfl (not_le.mp hflags))
      refine hrun.invariant h fun t dev u ht hstep => ?_
      rw [hstep.1]
      exact openLog_inv ht hstep.2

omit [DecidableEq δ] in
theorem Inv.outPutDevice (h : Inv opendir s) (flags : BitVec 32) : Inv opendir { s with outPutDevice := flags } := h

theorem reopenFile_inv {env : Env} (h : Inv opendir s)
    (hok : s.fd .file = none → OpenOk opendir s (s.path .file) .file env) : Inv opendir (reopenFile opendir s env) := by
  unfold reopenFile
  split_ifs with hnone
  · have hopen : CrLogOpenOk opendir s (some (s.path .file)) 2#32 fun _ => env := by
      intro path hpath _
      rw [← Option.some.inj hpath]
      exact ⟨hok (Option.isNone_iff_eq_none.mp hnone), trivial⟩
    exact (crLogOpen_inv h hopen).outPutDevice s.outPutDevice
  · exact h

theorem crLogWrite_inv {size : ℕ} {env : Device → Env} {reopen : Env} (h : Inv opendir s)
    (hok : CrLogWriteOk opendir s size env reopen) : Inv opendir (crLogWrite opendir s size env reopen) := by
  obtain ⟨huart, hfile, hvcp, hterm⟩ := hok
  have h1 := writeLog_inv h huart
  refine writeLog_inv (writeLog_inv ?_ hvcp) hterm
  split_ifs with hflag
  · obtain ⟨hopen, hwrite⟩ := hfile hflag
    exact writeLog_inv (reopenFile_inv h1 hopen) hwrite
  · exact h1

/-- **Step lemma**: a call that meets its condition keeps the files. -/
theorem logCall_inv {c : LogCall} (h : Inv opendir s) (hok : CallOk opendir s c) :
    Inv opendir (logCall opendir s c) := by
  cases c with
  | «open» logPath flags env => exact crLogOpen_inv h hok
  | write size env reopen => exact crLogWrite_inv h hok

omit [DecidableEq δ] in
theorem Fresh.inv (h : Fresh s) : Inv opendir s := by
  obtain ⟨hfd, hremovals, hover⟩ := h
  refine ⟨⟨hover, ?_, fun dev f hf => ?_⟩, fun dev f hf => ?_⟩
  · rw [hremovals]
    exact fun r hr => absurd hr List.not_mem_nil
  · rw [hfd dev] at hf
    exact absurd hf (by simp)
  · rw [hfd dev] at hf
    exact absurd hf (by simp)

/-- **Log retention**: in every run of calls that meet their conditions, after each of them there are four files of
every log at most, each removal took one of the least time, and none that was being written. -/
theorem calls_kept (h : Fresh s) {calls : List LogCall} (hok : AllSteps (logCall opendir) (CallOk opendir) s calls) :
    AllSteps (logCall opendir) (fun s c => Kept (logCall opendir s c)) s calls := by
  have hstep : ∀ s c, Inv opendir s → CallOk opendir s c →
      Inv opendir (logCall opendir s c) ∧ Kept (logCall opendir s c) := by
    intro s c hI hc
    have hnext := logCall_inv hI hc
    exact ⟨hnext, hnext.1⟩
  exact AllSteps.of_invariant hstep h.inv hok

/-- One directory, with log files of given times. -/
def onCard (mtimes : List ℕ) (h : ((mtimes.zipIdx.map fun p => text "FileLog" ++ twoDigits p.2)).Nodup) :
    Logs Unit where
  dirs _ :=
    { files := mtimes.zipIdx.map fun p => ⟨text "FileLog" ++ twoDigits p.2, p.1, 0⟩
      nodup := by
        rw [List.map_map]
        exact h }
  fd _ := none
  path _ := ⟨text "/", rfl⟩
  outPutDevice := 0
  removals := []
  overrun := false

/-- The tick that a device finds; the times grow with it. -/
def atTick (tick : BitVec 32) : Env := ⟨tick, tick.toNat + 1000, tick.toNat + 1000, 0⟩

/-- The file log is opened. -/
def openFileLog : LogCall := .open (some ⟨text "/", rfl⟩) 2#32 fun _ => atTick 0#32

/-- Ten megabytes are written. -/
def writeTenMegabytes : LogCall := .write (10 * 1024 * 1024) (fun _ => atTick 60#32) (atTick 60#32)

/-- Beside three files a log is opened and then goes on in another file, for which the oldest goes. -/
theorem calls_kept_three : AllSteps (logCall fun _ => ()) (fun s c => Kept (logCall (fun _ => ()) s c))
    (onCard [30, 10, 20] (by decide)) [openFileLog, writeTenMegabytes] :=
  calls_kept ⟨fun _ => rfl, rfl, rfl⟩ (by decide +kernel)

/-- Beside four files a log that is opened is the fifth. -/
theorem four_files_become_five : Fresh (onCard [40, 30, 10, 20] (by decide)) ∧
    ¬Kept (logCall (fun _ => ()) (onCard [40, 30, 10, 20] (by decide)) openFileLog) := by
  refine ⟨⟨fun _ => rfl, rfl, rfl⟩, ?_⟩
  decide +kernel

end Runs

end Cxsw.Log
