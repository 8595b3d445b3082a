import Cxsw.Lib.Run
import Cxsw.CrSdCard.CrSdCardAppInterface

/-!
# Cxsw.CrMenu.SdCardMenuItem — the file browser (`CrMenu/MenuItem/SdCardMenuItem.cpp`, `CrModel/CrSdCard.cpp`)

The menu keeps a cursor and one page of the current directory.  At a page boundary the knob actions move the cursor and
then ask the SD card module for the other page; the request may not be sent, may get no reply, or the reply of an
earlier request.  After every action the menu is drawn again.

The module needs a file descriptor to read a directory.  Each print that is started from the menu leaves a directory
open; what the other parts of the firmware have open changes at any time.

* `fileListMsgHandle`: the reply to a request.
* `upAction`, `downAction`, `okAction`, `showAction`: the actions of the menu.
* `Selected`: what OK acts on is what is highlighted.
* `selection_iff`: the runs in which it always is.
-/

namespace Cxsw.SdCard

open CString

/-! ## The SD card module -/

section Server

/-- `SdCardPageFileListMsg_t`. -/
structure PageFileListMsg where
  path : List UInt8
  maxCount : ℤ
  pageNo : ℤ
  count : ℤ
  fileList : List FileInfo

/-- `ViewPageInfoMsg_t`; the two numbers are single bytes. -/
structure ViewPageInfoMsg where
  path : List UInt8
  pageNo : ℕ
  pageSize : ℕ
  suffix : List UInt8

/-- `MAX_PATH_LENGTH`, the size of the path in both messages. -/
def maxPathLength : ℕ := 128

/-- `PAGE_FILE_COUNT`. -/
def pageFileCount : ℕ := 5

/-- `SD_CARD_ROOT_DIR`. -/
def sdCardRootDir : List UInt8 := text "/"

/-- An entry that was not filled in. -/
def blankInfo : FileInfo := ⟨List.replicate fileNameLength 0, false⟩

/-- The file system: the directories by their full paths, and what `CrChDir` makes of the working directory with a
descriptor left.  It opens the directory it changes to, and normalising a path does not make it longer. -/
structure FileSystem where
  isDir : List UInt8 → Prop
  dir : List UInt8 → List Dirent
  chDir : List UInt8 → List UInt8 → List UInt8
  root : isDir sdCardRootDir
  nonempty : ∀ p, isDir p → p ≠ []
  keep : ∀ c p, isDir c → isDir (chDir c p)
  enter : ∀ c p, isDir p → chDir c p = p
  length_le : ∀ c p, isDir c → (chDir c p).length ≤ max c.length p.length

/-- `CrSdCard::FileListMsgHandle` with so many descriptors taken, all of which it gives back: the reply and the working
directory. -/
def fileListMsgHandle (fs : FileSystem) (taken : ℕ) (cwd : List UInt8) (m : ViewPageInfoMsg) :
    PageFileListMsg × List UInt8 :=
  let pageSize := if m.pageSize > pageFileCount then pageFileCount else m.pageSize
  let cwd := if taken < dfsFdMax then fs.chDir cwd m.path else cwd
  let r := (crSdCardGetFileNameToBeShow taken (some (fs.dir cwd)) m.pageNo (List.replicate pageFileCount blankInfo)
    pageSize (some m.suffix)).1
  (⟨cwd.take (maxPathLength - 1), r.1, m.pageNo, pageSize, r.2⟩, cwd)

end Server

/-! ## The menu -/

section Menu

variable (fs : FileSystem)

/-- `MAX_FILE_COUNT_IN_PAGE`. -/
def maxFileCountInPage : ℕ := 5

/-- `GetMaxRow` of the display. -/
def maxRow : ℕ := 5

/-- `FILTER`. -/
def fileFilter : List UInt8 := text "gcode"

/-- The reply to a request for a page of a directory, in the directory, where so many descriptors were taken. -/
def replyOf (taken : ℕ) (path : List UInt8) (page : ℕ) : PageFileListMsg :=
  (fileListMsgHandle fs taken path ⟨path, page, maxFileCountInPage, fileFilter⟩).1

/-- The reply with the page. -/
def pageReply (path : List UInt8) (page : ℕ) : PageFileListMsg := replyOf fs 0 path page

/-- What becomes of a request: it is answered, or not sent, or there is no reply in time, or the reply that is received
is that of an earlier request, which was answered with `taken` descriptors. -/
inductive Outcome
  | answered
  | sendFailed
  | noReply
  | stale (taken : ℕ) (path : List UInt8) (page : ℕ) (hdir : fs.isDir path) (hlen : path.length < maxPathLength)
    (hpage : page < 256)

/-- What becomes of the message that starts a print: it is not sent, or the printer has a job and nothing is looked up,
or the SD card module looks the file up. -/
inductive PrintOutcome
  | notSent
  | busy
  | lookedUp

/-- What the display shows. -/
structure Screen where
  rows : List (List UInt8)
  highlight : ℕ

/-- `FileListItemIndex` and `FileList`, the display, whether the menu is the current one, the working directory of the
SD card module, the directories that it has left open, and the descriptors of the other parts. -/
structure Browser where
  fileListItemIndex : ℕ
  fileList : PageFileListMsg
  screen : Option Screen
  inMenu : Bool
  cwd : List UInt8
  leaked : ℕ
  files : ℕ

/-- The descriptors that are taken. -/
def Browser.taken (b : Browser) : ℕ := b.leaked + b.files

/-- `FileList` after `memset`. -/
def zeroList : PageFileListMsg := ⟨[], 0, 0, 0, List.replicate pageFileCount blankInfo⟩

/-- After power-on. -/
def Browser.init : Browser := ⟨0, zeroList, none, false, sdCardRootDir, 0, 0⟩

/-- `ClearCurrentPath`. -/
def Browser.clearCurrentPath (b : Browser) : Browser := { b with fileListItemIndex := 0, fileList := zeroList }

/-- A request is sent and the reply received; `none` if it fails. -/
def Browser.request (b : Browser) (m : ViewPageInfoMsg) : Outcome fs → Option PageFileListMsg × Browser
  | .answered =>
    (some (fileListMsgHandle fs b.taken b.cwd m).1, { b with cwd := (fileListMsgHandle fs b.taken b.cwd m).2 })
  | .sendFailed => (none, b)
  | .noReply => (none, { b with cwd := (fileListMsgHandle fs b.taken b.cwd m).2 })
  | .stale taken path page _ _ _ =>
    (some (replyOf fs taken path page), { b with cwd := (fileListMsgHandle fs b.taken b.cwd m).2 })

/-- The bytes of an entry as they lie in memory. -/
def FileInfo.bytes (e : FileInfo) : List UInt8 := e.name ++ [if e.isDirectory then 1 else 0]

/-- `FileList.FileList[i].Name` as a string; a name that fills its array runs on. -/
def PageFileListMsg.nameOf (l : PageFileListMsg)
    (i : ℕ) : List UInt8 := str ((l.fileList.drop i).flatMap FileInfo.bytes)

/-- What `ShowFileList` draws. -/
def drawn (l : PageFileListMsg) (fileListItemIndex : ℕ) : Screen :=
  ⟨(List.range (min pageFileCount maxRow)).map l.nameOf, fileListItemIndex % maxRow⟩

/-- `ShowFileList`. -/
def Browser.showFileList (b : Browser) : Browser := { b with screen := some (drawn b.fileList b.fileListItemIndex) }

/-- `SdCardFileListShowAction`. -/
def showAction (b : Browser) (o : Outcome fs) : Browser :=
  if b.fileList.path = [] then
    match b.request fs ⟨sdCardRootDir, 0, maxFileCountInPage, fileFilter⟩ o with
    | (none, b) => b
    | (some l, b) => Browser.showFileList { b with fileList := l }
  else b.showFileList

/-- What `SdCardFileListUpAction` and `SdCardFileListDownAction` do at a page boundary. -/
def Browser.requestPage (b : Browser) (o : Outcome fs) : Browser :=
  -- `PageNum` is a byte
  let pageNum := (b.fileListItemIndex / maxFileCountInPage) % 256
  match b.request fs ⟨b.fileList.path, pageNum, maxFileCountInPage, fileFilter⟩ o with
  | (none, b) => b
  | (some l, b) => Browser.showFileList { b with fileList := l }

/-- `SdCardFileListUpAction`. -/
def upAction (b : Browser) (o : Outcome fs) : Browser :=
  if b.fileListItemIndex = 0 then b
  else
    let b := { b with fileListItemIndex := b.fileListItemIndex - 1 }
    if b.fileListItemIndex % maxRow = maxRow - 1 then b.requestPage fs o else b.showFileList

/-- `SdCardFileListDownAction`. -/
def downAction (b : Browser) (o : Outcome fs) : Browser :=
  if (b.fileListItemIndex : ℤ) ≥ b.fileList.maxCount - 1 then b
  else
    let b := { b with fileListItemIndex := b.fileListItemIndex + 1 }
    if b.fileListItemIndex % maxRow = 0 then b.requestPage fs o else b.showFileList

/-- The entry in the row of the cursor. -/
def Browser.entry (b : Browser) : FileInfo := b.fileList.fileList.getD (b.fileListItemIndex % maxRow) blankInfo

/-- Where the menu goes after OK: `BackParentMenu`. -/
inductive Back
  | stay
  | parent
  | root

/-- The path of the directory that OK changes to. -/
def Browser.okPath (b : Browser) : List UInt8 :=
  if b.fileListItemIndex = 0 then b.fileList.path ++ text "/.."
  else if b.fileList.path = sdCardRootDir then b.fileList.path ++ b.fileList.nameOf (b.fileListItemIndex % maxRow)
  else b.fileList.path ++ text "/" ++ b.fileList.nameOf (b.fileListItemIndex % maxRow)

/-- `CrSdCard::PrintFileSetMsgHandle` looks up the file with index `FileListItemIndex` in the directory of the list. -/
def Browser.lookUp (b : Browser) : Browser :=
  { b with leaked := b.leaked + ((crSdCardGetFileForIndex b.taken b.fileListItemIndex (some (fs.dir b.fileList.path))
      (some fileFilter)).2 - b.taken) }

/-- `SdCardFileListOKAction`; there is no result where `sprintf` writes beyond the path of the request. -/
def okAction (b : Browser) (o : Outcome fs) (print : PrintOutcome) : Option (Browser × Back) :=
  if b.entry.isDirectory then
    if b.fileListItemIndex = 0 ∧ b.fileList.path = sdCardRootDir then some (b, .parent)
    else if b.okPath.length ≥ maxPathLength then none
    else
      match b.request fs ⟨b.okPath, 0, 5, fileFilter⟩ o with
      | (none, b) => some (b, .stay)
      | (some l, b) => some ({ b with fileList := l, fileListItemIndex := 0 }, .stay)
  else
    match print with
    | .notSent => some (b, .stay)
    | .busy => some (b, .root)
    | .lookedUp => some (b.lookUp fs, .root)

/-- The menu is entered, the knob is turned or pressed, or the menu is left for the root menu; or the other parts come
to have so many files open. -/
inductive KnobEvent
  | enter
  | up
  | down
  | ok (print : PrintOutcome)
  | leave
  | files (n : ℕ)

/-- An event with what becomes of the request of the action, and of the one that `SdCardFileListShowAction` may make
when the menu is drawn after it. -/
structure BrowserInput where
  event : KnobEvent
  action : Outcome fs
  redraw : Outcome fs

/-- An event and the drawing of the menu after it.  The other menus have no part in it. -/
def Browser.step (b : Browser) (i : BrowserInput fs) : Option Browser :=
  match i.event with
  | .enter => some (showAction fs { b with inMenu := true } i.redraw)
  | .leave => some { b.clearCurrentPath with inMenu := false }
  | .up => if b.inMenu then some (showAction fs (upAction fs b i.action) i.redraw) else some b
  | .down => if b.inMenu then some (showAction fs (downAction fs b i.action) i.redraw) else some b
  | .files n => if b.leaked + n ≤ dfsFdMax then some { b with files := n } else none
  | .ok print =>
    if b.inMenu then
      (okAction fs b i.action print).map fun r =>
        match r with
        | (b, .stay) => showAction fs b i.redraw
        | (b, .parent) => { b with inMenu := false }
        | (b, .root) => { b.clearCurrentPath with inMenu := false }
    else some b

/-- The entries of the directory that the browser is in. -/
def Browser.entries (b : Browser) : List FileInfo := listing (fs.dir b.fileList.path) fileFilter

/-- **What OK acts on is what is highlighted.** -/
structure Selected (b : Browser) : Prop where
  /-- The cursor is on an entry of the directory, -/
  cursor : b.fileListItemIndex < (b.entries fs).length
  /-- the loaded page is the one with the cursor, -/
  page : b.fileList.pageNo = (b.fileListItemIndex / maxFileCountInPage : ℕ)
  /-- its row is the entry of this index, -/
  entry : b.fileList.fileList[b.fileListItemIndex % maxRow]? = (b.entries fs)[b.fileListItemIndex]?
  /-- and the display shows this page with this row highlighted. -/
  screen : b.screen = some (drawn b.fileList b.fileListItemIndex)

/-- Whenever the menu is the current one. -/
def SelectedInMenu (b : Browser) : Prop := b.inMenu = true → Selected fs b

/-- A request that is made where so many descriptors are taken loads the page of the cursor. -/
def LoadsPage (taken index : ℕ) : Outcome fs → Prop
  | .answered => taken < dfsFdMax ∧ index / maxFileCountInPage < 256
  | .sendFailed => False
  | .noReply => False
  | .stale late path page _ _ _ =>
    late < dfsFdMax ∧ page = index / maxFileCountInPage ∧ index < (listing (fs.dir path) fileFilter).length

/-- It loads no page, or the first one of a directory. -/
def LoadsFirst (taken : ℕ) : Outcome fs → Prop
  | .answered => taken < dfsFdMax
  | .stale late _ page _ _ _ => late < dfsFdMax ∧ page = 0
  | _ => True

/-- **The condition** of a step: the requests that it makes. -/
def RequestsOk (b : Browser) (i : BrowserInput fs) : Prop :=
  match i.event with
  | .enter => b.fileList.path = [] → LoadsPage fs b.taken 0 i.redraw
  | .leave => True
  | .files _ => True
  | .up =>
    b.inMenu = true → b.fileListItemIndex ≠ 0 → (b.fileListItemIndex - 1) % maxRow = maxRow - 1 →
      LoadsPage fs b.taken (b.fileListItemIndex - 1) i.action
  | .down =>
    b.inMenu = true → (b.fileListItemIndex : ℤ) < b.fileList.maxCount - 1 → (b.fileListItemIndex + 1) % maxRow = 0 →
      LoadsPage fs b.taken (b.fileListItemIndex + 1) i.action
  | .ok _ =>
    b.inMenu = true → b.entry.isDirectory = true → ¬ (b.fileListItemIndex = 0 ∧ b.fileList.path = sdCardRootDir) →
      LoadsFirst fs b.taken i.action

end Menu

/-! ## Replies -/

section Reply

variable {fs : FileSystem} {c w : List UInt8} {taken page i : ℕ} {b : Browser}

/-- A directory whose path fits into the messages. -/
def Reachable (fs : FileSystem) (w : List UInt8) : Prop := fs.isDir w ∧ w.length < maxPathLength

theorem reachable_chDir {p : List UInt8} (hc : Reachable fs c) (hp : p.length < maxPathLength) :
    Reachable fs (fs.chDir c p) :=
  ⟨fs.keep c p hc.1, (fs.length_le c p hc.1).trans_lt (max_lt hc.2 hp)⟩

/-- With a descriptor the reply is the page of the directory that the path leads to. -/
theorem fileListMsgHandle_eq (hfree : taken < dfsFdMax) (hc : fs.isDir c) (p : List UInt8) (page : ℕ) :
    fileListMsgHandle fs taken c ⟨p, page, maxFileCountInPage, fileFilter⟩ =
      (pageReply fs (fs.chDir c p) page, fs.chDir c p) := by
  have hagain := fs.enter (fs.chDir c p) _ (fs.keep c p hc)
  unfold pageReply replyOf fileListMsgHandle
  dsimp only
  rw [if_pos hfree, if_pos (show 0 < dfsFdMax by decide), hagain]
  have hread := fun t (ht : t < dfsFdMax) => @getFileNameToBeShow_eq fileFilter 5 t ht (fs.dir (fs.chDir c p)) page
    (by decide) (List.replicate pageFileCount blankInfo) (by decide)
  have hsame := congrArg Prod.fst (hread taken hfree)
  rw [← congrArg Prod.fst (hread 0 (by decide))] at hsame
  exact congrArg (fun r : ℤ × List FileInfo => ((⟨(fs.chDir c p).take (maxPathLength - 1), r.1, page, 5, r.2⟩ :
    PageFileListMsg), fs.chDir c p)) hsame

theorem replyOf_of_free (hfree : taken < dfsFdMax) (hw : fs.isDir w) (page : ℕ) :
    replyOf fs taken w page = pageReply fs w page := by
  unfold replyOf
  rw [fileListMsgHandle_eq hfree hw, fs.enter w w hw]

/-- Without a descriptor the working directory stays and the rows are blank. -/
theorem fileListMsgHandle_of_full (hfull : ¬ taken < dfsFdMax) (m : ViewPageInfoMsg) :
    (fileListMsgHandle fs taken c m).1.fileList = List.replicate pageFileCount blankInfo ∧
      (fileListMsgHandle fs taken c m).2 = c := by
  unfold fileListMsgHandle
  dsimp only
  rw [if_neg hfull, getFileNameToBeShow_of_full hfull]
  exact ⟨rfl, rfl⟩

/-- In either case the working directory is one that fits into the messages. -/
theorem reachable_handle {p : List UInt8} {page : ℕ} (hc : Reachable fs c) (hp : p.length < maxPathLength) :
    Reachable fs (fileListMsgHandle fs taken c ⟨p, page, maxFileCountInPage, fileFilter⟩).2 := by
  by_cases hfree : taken < dfsFdMax
  · rw [fileListMsgHandle_eq hfree hc.1]
    exact reachable_chDir hc hp
  · rw [(fileListMsgHandle_of_full hfree _).2]
    exact hc

theorem blankInfo_not_mem_listing (dir : List Dirent) : blankInfo ∉ listing dir fileFilter := by
  intro hmem
  rcases List.mem_cons.mp hmem with hparent | hmem
  · exact absurd (congrArg FileInfo.isDirectory hparent) (by decide)
  obtain ⟨d, hd, hentry⟩ := List.mem_map.mp hmem
  rcases of_decide_eq_true (List.mem_filter.mp hd).2 with htype | ⟨-, hsuffix⟩
  · have hdir := congrArg FileInfo.isDirectory hentry
    unfold Dirent.entry at hdir
    simp [htype, blankInfo] at hdir
  · -- the name of a file is not empty
    have hname : d.d_name.take fileNameLength = List.replicate fileNameLength 0 := congrArg FileInfo.name hentry
    cases hd_name : d.d_name with
    | nil =>
      rw [hd_name] at hname
      cases hname
    | cons c cs =>
      rw [hd_name] at hname hsuffix
      obtain rfl : c = 0 := (List.cons.inj hname).1
      exact absurd (List.suffix_nil.mp hsuffix) (by decide)

theorem pageReply_eq (hw : Reachable fs w) (page : ℕ) :
    pageReply fs w page =
      ⟨w, 1 + ((min (listed (fs.dir w) fileFilter).length ((page + 1) * 5) : ℕ) : ℤ), page, 5,
        shown (fs.dir w) page 5 fileFilter ++
          (List.replicate pageFileCount blankInfo).drop (shown (fs.dir w) page 5 fileFilter).length⟩ := by
  unfold pageReply replyOf fileListMsgHandle
  dsimp only
  rw [if_pos (show 0 < dfsFdMax by decide), fs.enter w w hw.1, List.take_of_length_le (Nat.le_sub_one_of_lt hw.2),
    if_neg (by decide)]
  have hpage := congrArg Prod.fst (@getFileNameToBeShow_eq fileFilter 5 0 (by decide) (fs.dir w) page (by decide)
    (List.replicate pageFileCount blankInfo) (by decide))
  exact congrArg (fun r : ℤ × List FileInfo => (⟨w, r.1, page, 5, r.2⟩ : PageFileListMsg)) hpage

theorem pageReply_entry (hw : Reachable fs w) (hi : i < (listing (fs.dir w) fileFilter).length) :
    (pageReply fs w (i / 5)).fileList[i % 5]? = (listing (fs.dir w) fileFilter)[i]? := by
  have hmod := Nat.mod_lt i (show 0 < 5 by decide)
  have hdiv := Nat.div_add_mod' i 5
  rw [pageReply_eq hw]
  dsimp only
  rw [shown_eq _ _ (by decide), List.getElem?_append_left, List.getElem?_take_of_lt hmod, List.getElem?_drop, hdiv]
  rw [List.length_take, List.length_drop]
  omega

theorem length_listing (dir : List Dirent) (filter : List UInt8) :
    (listing dir filter).length = (listed dir filter).length + 1 := by
  rw [listing, List.length_cons, List.length_map]

/-- On a page of a directory only the number of the page and the cursor matter. -/
theorem selected_iff (hw : Reachable fs w) (hlist : b.fileList = pageReply fs w page)
    (hscreen : b.screen = some (drawn b.fileList b.fileListItemIndex)) :
    Selected fs b ↔ page = b.fileListItemIndex / 5 ∧
      b.fileListItemIndex < (listing (fs.dir w) fileFilter).length := by
  have hpath : b.fileList.path = w := by rw [hlist, pageReply_eq hw]
  have hno : b.fileList.pageNo = page := by rw [hlist, pageReply_eq hw]
  have hentries : b.entries fs = listing (fs.dir w) fileFilter := by rw [Browser.entries, hpath]
  constructor
  · intro h
    have hpage := h.page
    rw [hno] at hpage
    refine ⟨by exact_mod_cast hpage, ?_⟩
    rw [← hentries]
    exact h.cursor
  · rintro ⟨hpage, hcursor⟩
    refine ⟨by rw [hentries]; exact hcursor, by rw [hno, hpage]; rfl, ?_, hscreen⟩
    rw [hentries, hlist, hpage]
    exact pageReply_entry hw hcursor

end Reply

/-! ## The invariant -/

section Inv

variable {fs : FileSystem} {w p : List UInt8} {page : ℕ} {b t : Browser} {o : Outcome fs} {P : Prop}

/-- The list is a page of a directory. -/
def IsPage (fs : FileSystem) (l : PageFileListMsg) : Prop := ∃ w page, Reachable fs w ∧ l = pageReply fs w page

/-- The list is a reply without a page. -/
def IsBlank (l : PageFileListMsg) : Prop := l.fileList = List.replicate pageFileCount blankInfo ∧ l.path ≠ []

/-- **The invariant**: the list is empty with the cursor at the start, or a page, and outside of the menu the page that
is kept is that of the cursor. -/
structure BrowserInv (fs : FileSystem) (b : Browser) : Prop where
  cwd : Reachable fs b.cwd
  list : b.fileList = zeroList ∧ b.fileListItemIndex = 0 ∨ IsPage fs b.fileList
  kept : b.inMenu = false → b.fileList.path ≠ [] → b.fileList.pageNo = (b.fileListItemIndex / 5 : ℕ) ∧
    b.fileListItemIndex < (b.entries fs).length

theorem reachable_root (fs : FileSystem) : Reachable fs sdCardRootDir := ⟨fs.root, by decide⟩

theorem path_ne_nil (hw : Reachable fs w) (hlist : b.fileList = pageReply fs w page) : b.fileList.path ≠ [] := by
  rw [hlist, pageReply_eq hw]
  exact fs.nonempty w hw.1

theorem isBlank_handle {taken : ℕ} (hfull : ¬ taken < dfsFdMax) (hw : Reachable fs w) (m : ViewPageInfoMsg) :
    IsBlank (fileListMsgHandle fs taken w m).1 := by
  refine ⟨(fileListMsgHandle_of_full hfull m).1, ?_⟩
  unfold fileListMsgHandle
  dsimp only
  rw [if_neg hfull, List.take_of_length_le (Nat.le_sub_one_of_lt hw.2)]
  exact fs.nonempty w hw.1

/-- What comes of a request for a page of the directory that a path leads to. -/
inductive RequestResult (fs : FileSystem) (b : Browser) (p : List UInt8) (page : ℕ) :
    Outcome fs → Option PageFileListMsg × Browser → Prop
  /-- No reply. -/
  | silent {o : Outcome fs} {c : List UInt8} (ho : o = .sendFailed ∨ o = .noReply) (hc : Reachable fs c) :
    RequestResult fs b p page o (none, { b with cwd := c })
  /-- A reply that was made without a descriptor. -/
  | blank {o : Outcome fs} {c : List UInt8} {l : PageFileListMsg} (hl : IsBlank l)
    (ho : ∀ index, ¬ LoadsPage fs b.taken index o) (ho' : ¬ LoadsFirst fs b.taken o) :
    RequestResult fs b p page o (some l, { b with cwd := c })
  /-- The page. -/
  | answered (hfree : b.taken < dfsFdMax) (hc : Reachable fs (fs.chDir b.cwd p)) :
    RequestResult fs b p page .answered (some (pageReply fs (fs.chDir b.cwd p) page),
      { b with cwd := fs.chDir b.cwd p })
  /-- A page that was asked for earlier. -/
  | stale {late q : ℕ} {path c : List UInt8} {hdir : fs.isDir path} {hlen : path.length < maxPathLength} {hq : q < 256}
    (hlate : late < dfsFdMax) (hc : Reachable fs c) :
    RequestResult fs b p page (.stale late path q hdir hlen hq) (some (pageReply fs path q), { b with cwd := c })

theorem request_result (hcwd : Reachable fs b.cwd) (hp : p.length < maxPathLength) (page : ℕ) (o : Outcome fs) :
    RequestResult fs b p page o (b.request fs ⟨p, page, maxFileCountInPage, fileFilter⟩ o) := by
  have hc := @reachable_handle fs b.cwd b.taken p page hcwd hp
  cases o with
  | answered =>
    unfold Browser.request
    dsimp only
    by_cases hfree : b.taken < dfsFdMax
    · rw [fileListMsgHandle_eq hfree hcwd.1]
      exact .answered hfree (reachable_chDir hcwd hp)
    · exact .blank (isBlank_handle hfree hcwd _) (fun _ h => hfree h.1) hfree
  | sendFailed => exact .silent (Or.inl rfl) hcwd
  | noReply => exact .silent (Or.inr rfl) hc
  | stale late path q hdir hlen hq =>
    unfold Browser.request
    dsimp only
    by_cases hlate : late < dfsFdMax
    · rw [replyOf_of_free hlate hdir]
      exact .stale hlate hc
    · exact .blank (isBlank_handle hlate ⟨hdir, hlen⟩ _) (fun _ h => hlate h.1) fun h => hlate h.1

theorem not_selected_zeroList (hlist : b.fileList = zeroList) (hindex : b.fileListItemIndex = 0) :
    ¬ Selected fs b := by
  intro h
  -- there is no entry for the parent directory
  have hentry := h.entry
  rw [hlist, hindex] at hentry
  cases hentry

theorem not_selected_blank (hlist : IsBlank b.fileList) : ¬ Selected fs b := by
  intro h
  have hentry := h.entry
  have hrow : b.fileListItemIndex % maxRow < pageFileCount := Nat.mod_lt _ (by decide)
  rw [hlist.1, List.getElem?_replicate_of_lt hrow] at hentry
  exact blankInfo_not_mem_listing _ (List.mem_of_getElem? hentry.symm)

theorem Selected.page_of (h : Selected fs b) (hinv : BrowserInv fs b) :
    ∃ w, Reachable fs w ∧ b.fileList = pageReply fs w (b.fileListItemIndex / 5) ∧
      b.fileListItemIndex < (listing (fs.dir w) fileFilter).length := by
  rcases hinv.list with ⟨hlist, hindex⟩ | ⟨w, page, hw, hlist⟩
  · exact absurd h (not_selected_zeroList hlist hindex)
  · have hiff := (selected_iff hw hlist h.screen).mp h
    rw [← hiff.1]
    exact ⟨w, hw, hlist, hiff.2⟩

/-- What an event leads to in the menu, where what OK acts on is what is highlighted exactly when `P` holds. -/
structure Lands (fs : FileSystem) (t : Browser) (P : Prop) : Prop where
  inMenu : t.inMenu = true
  inv : Selected fs t → BrowserInv fs t
  selected : Selected fs t ↔ P

/-- The list that an action leaves: a page, which is that of the cursor exactly when `P` holds, or a blank one. -/
inductive Loaded (fs : FileSystem) (t : Browser) (P : Prop) : Prop
  | page {w : List UInt8} {page : ℕ} (hcwd : Reachable fs t.cwd) (hw : Reachable fs w)
    (hlist : t.fileList = pageReply fs w page)
    (hiff : page = t.fileListItemIndex / 5 ∧ t.fileListItemIndex < (listing (fs.dir w) fileFilter).length ↔ P)
  | blank (hlist : IsBlank t.fileList) (hP : ¬ P)

/-- In the menu, with a page loaded. -/
theorem inv_of_page (hmenu : t.inMenu = true) (hcwd : Reachable fs t.cwd) (hpage : IsPage fs t.fileList) :
    BrowserInv fs t where
  cwd := hcwd
  list := Or.inr hpage
  kept hleft := by
    rw [hmenu] at hleft
    cases hleft

theorem Loaded.lands (h : Loaded fs t P) (hmenu : t.inMenu = true) (o : Outcome fs) :
    Lands fs (showAction fs t o) P := by
  unfold showAction
  cases h with
  | @page w page hcwd hw hlist hiff =>
    rw [if_neg (path_ne_nil hw hlist)]
    exact ⟨hmenu, fun _ => inv_of_page hmenu hcwd ⟨w, page, hw, hlist⟩, 
      (selected_iff (b := t.showFileList) hw hlist rfl).trans hiff⟩
  | blank hlist hP =>
    rw [if_neg hlist.2]
    have hnot : ¬ Selected fs t.showFileList := not_selected_blank hlist
    exact ⟨hmenu, fun hsel => absurd hsel hnot, iff_of_false hnot hP⟩

/-- **A page is turned**, with the cursor moved beyond the page that is loaded. -/
theorem turn_spec (hcwd : Reachable fs b.cwd) (hw : Reachable fs w) (hlist : b.fileList = pageReply fs w page)
    (hmoved : page ≠ b.fileListItemIndex / 5)
    (hcursor : b.fileListItemIndex < (listing (fs.dir w) fileFilter).length) (o : Outcome fs) :
    Loaded fs (b.requestPage fs o) (LoadsPage fs b.taken b.fileListItemIndex o) ∧
      (b.requestPage fs o).inMenu = b.inMenu := by
  have hpath : b.fileList.path = w := by rw [hlist, pageReply_eq hw]
  have hresult := request_result hcwd hw.2 (b.fileListItemIndex / maxFileCountInPage % 256) o
  unfold Browser.requestPage
  rw [hpath]
  dsimp only
  generalize b.request fs ⟨w, b.fileListItemIndex / maxFileCountInPage % 256, maxFileCountInPage, fileFilter⟩ o = r
    at hresult
  cases hresult with
  | silent ho hc =>
    refine ⟨.page hc hw hlist (iff_of_false (fun h => hmoved h.1) ?_), rfl⟩
    rcases ho with rfl | rfl <;> exact not_false
  | blank hl ho _ => exact ⟨.blank hl (ho _), rfl⟩
  | answered hfree hc =>
    rw [fs.enter _ _ hw.1]
    refine ⟨.page hw hw rfl ?_, rfl⟩
    change b.fileListItemIndex / 5 % 256 = b.fileListItemIndex / 5 ∧ b.fileListItemIndex < _ ↔
      b.taken < dfsFdMax ∧ b.fileListItemIndex / 5 < 256
    omega
  | @stale late q path c hdir hlen hq hlate hc =>
    exact ⟨.page hc ⟨hdir, hlen⟩ rfl ⟨fun h => ⟨hlate, h⟩, fun h => h.2⟩, rfl⟩

/-- The menu is entered with nothing loaded: the root directory is asked for. -/
theorem enter_empty (hinv : BrowserInv fs b) (hlist : b.fileList = zeroList) (hindex : b.fileListItemIndex = 0)
    (o : Outcome fs) :
    Lands fs (showAction fs { b with inMenu := true } o) (b.fileList.path = [] → LoadsPage fs b.taken 0 o) := by
  have hnil : b.fileList.path = [] := by
    rw [hlist]
    rfl
  have hroot := reachable_root fs
  have hresult := @request_result fs sdCardRootDir { b with inMenu := true } hinv.cwd hroot.2 0 o
  have hfirst : ∀ dir : List Dirent, 0 < (listing dir fileFilter).length := fun dir => by
    rw [length_listing]
    exact Nat.succ_pos _
  have hloaded : ∀ c w q, Reachable fs c → Reachable fs w →
      Lands fs (Browser.showFileList { b with inMenu := true, cwd := c, fileList := pageReply fs w q }) (q = 0) := by
    intro c w q hc hw
    refine ⟨rfl, fun _ => inv_of_page rfl hc ⟨w, q, hw, rfl⟩, (selected_iff hw rfl rfl).trans ?_⟩
    dsimp only [Browser.showFileList]
    rw [hindex, Nat.zero_div]
    exact and_iff_left (hfirst _)
  unfold showAction
  rw [if_pos hnil]
  generalize Browser.request fs { b with inMenu := true } ⟨sdCardRootDir, 0, maxFileCountInPage, fileFilter⟩ o = r
    at hresult
  cases hresult with
  | @silent o c ho hc =>
    have hnot : ¬ Selected fs { b with inMenu := true, cwd := c } := not_selected_zeroList hlist hindex
    refine ⟨rfl, fun hsel => absurd hsel hnot, iff_of_false hnot fun h => ?_⟩
    rcases ho with rfl | rfl <;> exact h hnil
  | blank hl ho _ =>
    have hnot := fun b hb => @not_selected_blank fs b hb
    exact ⟨rfl, fun hsel => absurd hsel (hnot _ hl), iff_of_false (hnot _ hl) fun h => ho 0 (h hnil)⟩
  | answered hfree hc =>
    obtain ⟨hmenu, hi, hiff⟩ := hloaded _ _ 0 hc hc
    exact ⟨hmenu, hi, hiff.trans ⟨fun _ _ => ⟨hfree, Nat.zero_lt_succ 255⟩, fun _ => rfl⟩⟩
  | @stale late q path c hdir hlen hq hlate hc =>
    obtain ⟨hmenu, hi, hiff⟩ := hloaded c path q hc ⟨hdir, hlen⟩
    exact ⟨hmenu, hi, hiff.trans ⟨fun h _ => ⟨hlate, h, hfirst _⟩, fun h => (h hnil).2.1⟩⟩

/-- Where a page is loaded, in the menu and outside of it, it is that of the cursor. -/
theorem page_of_cursor (hinv : BrowserInv fs b) (hsel : SelectedInMenu fs b) (hw : Reachable fs w)
    (hlist : b.fileList = pageReply fs w page) :
    page = b.fileListItemIndex / 5 ∧ b.fileListItemIndex < (listing (fs.dir w) fileFilter).length := by
  cases hin : b.inMenu with
  | true =>
    obtain ⟨w', hw', hlist', hcursor⟩ := (hsel hin).page_of hinv
    have hpath := congrArg PageFileListMsg.path (hlist.symm.trans hlist')
    have hno := congrArg PageFileListMsg.pageNo (hlist.symm.trans hlist')
    rw [pageReply_eq hw, pageReply_eq hw'] at hpath hno
    dsimp only at hpath hno
    rw [hpath]
    exact ⟨by exact_mod_cast hno, hcursor⟩
  | false =>
    obtain ⟨hno, hcursor⟩ := hinv.kept hin (path_ne_nil hw hlist)
    rw [Browser.entries] at hcursor
    rw [hlist, pageReply_eq hw] at hno hcursor
    dsimp only at hno hcursor
    exact ⟨by exact_mod_cast hno, hcursor⟩

theorem enter_spec (hinv : BrowserInv fs b) (hsel : SelectedInMenu fs b) (o : Outcome fs) :
    Lands fs (showAction fs { b with inMenu := true } o) (b.fileList.path = [] → LoadsPage fs b.taken 0 o) := by
  rcases hinv.list with ⟨hlist, hindex⟩ | ⟨w, page, hw, hlist⟩
  · exact enter_empty hinv hlist hindex o
  · have hne := path_ne_nil hw hlist
    have hcursor := page_of_cursor hinv hsel hw hlist
    exact Loaded.lands (t := { b with inMenu := true })
      (.page hinv.cwd hw hlist (iff_of_true hcursor fun hp => absurd hp hne)) rfl o

theorem up_spec (hinv : BrowserInv fs b) (hsel : Selected fs b) (hmenu : b.inMenu = true) (o o' : Outcome fs) :
    Lands fs (showAction fs (upAction fs b o) o')
      (b.fileListItemIndex ≠ 0 → (b.fileListItemIndex - 1) % maxRow = maxRow - 1 →
        LoadsPage fs b.taken (b.fileListItemIndex - 1) o) := by
  obtain ⟨w, hw, hlist, hcursor⟩ := hsel.page_of hinv
  unfold upAction
  by_cases hzero : b.fileListItemIndex = 0
  · rw [if_pos hzero]
    exact Loaded.lands (.page hinv.cwd hw hlist (iff_of_true ⟨rfl, hcursor⟩ fun hne => absurd hzero hne)) hmenu o'
  rw [if_neg hzero]
  dsimp only
  by_cases hturn : (b.fileListItemIndex - 1) % maxRow = maxRow - 1
  · rw [if_pos hturn]
    obtain ⟨hloaded, hm⟩ := @turn_spec fs w _ { b with fileListItemIndex := b.fileListItemIndex - 1 } hinv.cwd
      hw hlist (by unfold maxRow at hturn; dsimp only; omega) (by dsimp only; omega) o
    obtain ⟨hin, hi, hiff⟩ := hloaded.lands (hm.trans hmenu) o'
    exact ⟨hin, hi, hiff.trans ⟨fun h _ _ => h, fun h => h hzero hturn⟩⟩
  · rw [if_neg hturn]
    refine Loaded.lands (t := Browser.showFileList { b with fileListItemIndex := b.fileListItemIndex - 1 })
      (.page hinv.cwd hw hlist (iff_of_true ?_ fun _ h => absurd h hturn)) hmenu o'
    unfold maxRow at hturn
    dsimp only [Browser.showFileList]
    omega

theorem down_spec (hinv : BrowserInv fs b) (hsel : Selected fs b) (hmenu : b.inMenu = true) (o o' : Outcome fs) :
    Lands fs (showAction fs (downAction fs b o) o')
      ((b.fileListItemIndex : ℤ) < b.fileList.maxCount - 1 → (b.fileListItemIndex + 1) % maxRow = 0 →
        LoadsPage fs b.taken (b.fileListItemIndex + 1) o) := by
  obtain ⟨w, hw, hlist, hcursor⟩ := hsel.page_of hinv
  unfold downAction
  by_cases hlast : (b.fileListItemIndex : ℤ) ≥ b.fileList.maxCount - 1
  · rw [if_pos hlast]
    exact Loaded.lands (.page hinv.cwd hw hlist
      (iff_of_true ⟨rfl, hcursor⟩ fun hlt => absurd hlt (not_lt.mpr hlast))) hmenu o'
  rw [if_neg hlast]
  -- the count is at most that of the entries
  have hnext : b.fileListItemIndex + 1 < (listing (fs.dir w) fileFilter).length := by
    rw [hlist, pageReply_eq hw] at hlast
    rw [length_listing]
    dsimp only at hlast
    omega
  dsimp only
  by_cases hturn : (b.fileListItemIndex + 1) % maxRow = 0
  · rw [if_pos hturn]
    obtain ⟨hloaded, hm⟩ := @turn_spec fs w _ { b with fileListItemIndex := b.fileListItemIndex + 1 } hinv.cwd
      hw hlist (by unfold maxRow at hturn; dsimp only; omega) hnext o
    obtain ⟨hin, hi, hiff⟩ := hloaded.lands (hm.trans hmenu) o'
    exact ⟨hin, hi, hiff.trans ⟨fun h _ _ => h, fun h => h (not_le.mp hlast) hturn⟩⟩
  · rw [if_neg hturn]
    refine Loaded.lands (t := Browser.showFileList { b with fileListItemIndex := b.fileListItemIndex + 1 })
      (.page hinv.cwd hw hlist (iff_of_true ⟨?_, hnext⟩ fun _ h => absurd h hturn)) hmenu o'
    unfold maxRow at hturn
    dsimp only [Browser.showFileList]
    omega

/-- The condition of the OK button. -/
def OkLoads (fs : FileSystem) (b : Browser) (o : Outcome fs) : Prop :=
  b.entry.isDirectory = true → ¬ (b.fileListItemIndex = 0 ∧ b.fileList.path = sdCardRootDir) →
    LoadsFirst fs b.taken o

/-- The knob is pressed: where the menu stays there is a list, and it is left only where nothing was asked for. -/
theorem ok_spec (hinv : BrowserInv fs b) (hsel : Selected fs b) (hmenu : b.inMenu = true) {print : PrintOutcome}
    {back : Back} (h : okAction fs b o print = some (t, back)) :
    t.inMenu = true ∧ (back = .stay → Loaded fs t (OkLoads fs b o)) ∧
      (back ≠ .stay → OkLoads fs b o ∧ t.cwd = b.cwd ∧ (back = .parent → t = b)) := by
  obtain ⟨w, hw, hlist, hcursor⟩ := hsel.page_of hinv
  have hsame : ∀ {P : Prop}, P → Loaded fs b P :=
    fun hP => .page hinv.cwd hw hlist (iff_of_true ⟨rfl, hcursor⟩ hP)
  have hfirst : ∀ dir : List Dirent, 0 < (listing dir fileFilter).length := fun dir => by
    rw [length_listing]
    exact Nat.succ_pos _
  unfold okAction at h
  by_cases hdir : b.entry.isDirectory = true
  swap
  · -- a file
    rw [if_neg hdir] at h
    have hok : OkLoads fs b o := fun hd => absurd hd hdir
    cases print with
    | notSent =>
      cases h
      exact ⟨hmenu, fun _ => hsame hok, fun hne => absurd rfl hne⟩
    | busy =>
      cases h
      exact ⟨hmenu, fun he => (nomatch he), fun _ => ⟨hok, rfl, fun he => (nomatch he)⟩⟩
    | lookedUp =>
      cases h
      exact ⟨hmenu, fun he => (nomatch he), fun _ => ⟨hok, rfl, fun he => (nomatch he)⟩⟩
  rw [if_pos hdir] at h
  by_cases hroot : b.fileListItemIndex = 0 ∧ b.fileList.path = sdCardRootDir
  · rw [if_pos hroot] at h
    cases h
    exact ⟨hmenu, fun he => (nomatch he), fun _ => ⟨fun _ hn => absurd hroot hn, rfl, fun _ => rfl⟩⟩
  rw [if_neg hroot] at h
  by_cases hlen : b.okPath.length ≥ maxPathLength
  · rw [if_pos hlen] at h
    cases h
  rw [if_neg hlen] at h
  have hresult := request_result hinv.cwd (not_le.mp hlen) 0 o
  change (match b.request fs ⟨b.okPath, 0, maxFileCountInPage, fileFilter⟩ o with
    | (none, b) => some (b, Back.stay)
    | (some l, b) => some ({ b with fileList := l, fileListItemIndex := 0 }, Back.stay)) = some (t, back) at h
  generalize b.request fs ⟨b.okPath, 0, maxFileCountInPage, fileFilter⟩ o = r at hresult h
  cases hresult with
  | silent ho hc =>
    cases h
    refine ⟨hmenu, fun _ => .page hc hw hlist (iff_of_true ⟨rfl, hcursor⟩ fun _ _ => ?_), fun hne => absurd rfl hne⟩
    rcases ho with rfl | rfl <;> trivial
  | blank hl _ ho =>
    cases h
    exact ⟨hmenu, fun _ => .blank hl fun hok => ho (hok hdir hroot), fun hne => absurd rfl hne⟩
  | answered hfree hc =>
    cases h
    exact ⟨hmenu, fun _ => .page hc hc rfl (iff_of_true ⟨(Nat.zero_div 5).symm, hfirst _⟩ fun _ _ => hfree),
      fun hne => absurd rfl hne⟩
  | @stale late q path c hd hl hq hlate hc =>
    cases h
    refine ⟨hmenu, fun _ => .page hc ⟨hd, hl⟩ rfl ⟨fun hp _ _ => ⟨hlate, ?_⟩, fun hp => ⟨?_, hfirst _⟩⟩,
      fun hne => absurd rfl hne⟩
    · exact hp.1.trans (Nat.zero_div 5)
    · exact (hp hdir hroot).2.trans (Nat.zero_div 5).symm

/-- **One event**: what OK acts on stays what is highlighted exactly when the requests of the event meet the condition,
and then the invariant is kept. -/
theorem step_spec {i : BrowserInput fs} (hinv : BrowserInv fs b) (hsel : SelectedInMenu fs b)
    (hstep : b.step fs i = some t) :
    (SelectedInMenu fs t → BrowserInv fs t) ∧ (SelectedInMenu fs t ↔ RequestsOk fs b i) := by
  rcases i with ⟨event, o, o'⟩
  unfold Browser.step at hstep
  unfold RequestsOk SelectedInMenu
  dsimp only at hstep ⊢
  -- an action in the menu, and the same event outside of it
  have hin : ∀ {P : Prop}, Lands fs t P → b.inMenu = true →
      ((t.inMenu = true → Selected fs t) → BrowserInv fs t) ∧
        ((t.inMenu = true → Selected fs t) ↔ (b.inMenu = true → P)) :=
    fun hl hb => ⟨fun hs => hl.inv (hs hl.inMenu), by
      rw [hl.inMenu, hb, forall_prop_of_true rfl, forall_prop_of_true rfl]
      exact hl.selected⟩
  have hout : ∀ {P : Prop}, ¬ b.inMenu = true → b = t →
      ((t.inMenu = true → Selected fs t) → BrowserInv fs t) ∧
        ((t.inMenu = true → Selected fs t) ↔ (b.inMenu = true → P)) := by
    rintro P hb rfl
    exact ⟨fun _ => hinv, iff_of_true (fun h => absurd h hb) fun h => absurd h hb⟩
  cases event with
  | enter =>
    cases hstep
    obtain ⟨hmenu, hi, hiff⟩ := enter_spec hinv hsel o'
    exact ⟨fun hs => hi (hs hmenu), by rw [hmenu, forall_prop_of_true rfl]; exact hiff⟩
  | leave =>
    cases hstep
    exact ⟨fun _ => ⟨hinv.cwd, Or.inl ⟨rfl, rfl⟩, fun _ hp => absurd rfl hp⟩, iff_of_true (fun h => by cases h) trivial⟩
  | files n =>
    dsimp only at hstep
    split_ifs at hstep
    cases hstep
    refine ⟨fun _ => ⟨hinv.cwd, hinv.list, hinv.kept⟩, iff_of_true (fun hb => ?_) trivial⟩
    obtain ⟨hcursor, hpage, hentry, hscreen⟩ := hsel hb
    exact ⟨hcursor, hpage, hentry, hscreen⟩
  | up =>
    by_cases hb : b.inMenu = true
    · dsimp only at hstep
      rw [if_pos hb] at hstep
      cases hstep
      exact hin (up_spec hinv (hsel hb) hb o o') hb
    · dsimp only at hstep
      rw [if_neg hb] at hstep
      exact hout hb (Option.some.inj hstep)
  | down =>
    by_cases hb : b.inMenu = true
    · dsimp only at hstep
      rw [if_pos hb] at hstep
      cases hstep
      exact hin (down_spec hinv (hsel hb) hb o o') hb
    · dsimp only at hstep
      rw [if_neg hb] at hstep
      exact hout hb (Option.some.inj hstep)
  | ok print =>
    by_cases hb : b.inMenu = true
    swap
    · dsimp only at hstep
      rw [if_neg hb] at hstep
      exact hout hb (Option.some.inj hstep)
    dsimp only at hstep
    rw [if_pos hb] at hstep
    obtain ⟨⟨r, back⟩, hok, ht⟩ := Option.map_eq_some_iff.mp hstep
    obtain ⟨hmenu, hstay, hleft⟩ := ok_spec hinv (hsel hb) hb hok
    cases back with
    | stay =>
      dsimp only at ht
      rw [← ht]
      rw [← ht] at hin
      exact hin ((hstay rfl).lands hmenu o') hb
    | parent =>
      obtain ⟨hloads, -, hsame⟩ := hleft (by simp)
      obtain rfl := hsame rfl
      have hs := hsel hb
      rw [← ht]
      exact ⟨fun _ => ⟨hinv.cwd, hinv.list, fun _ _ => ⟨hs.page, hs.cursor⟩⟩,
        iff_of_true (fun h => by cases h) fun _ => hloads⟩
    | root =>
      obtain ⟨hloads, hcwd, -⟩ := hleft (by simp)
      rw [← ht]
      exact ⟨fun _ => ⟨hcwd ▸ hinv.cwd, Or.inl ⟨rfl, rfl⟩, fun _ hp => absurd rfl hp⟩,
        iff_of_true (fun h => by cases h) fun _ => hloads⟩

end Inv

/-! ## Every run -/

section Runs

variable {fs : FileSystem}

theorem browserInv_init (fs : FileSystem) : BrowserInv fs Browser.init :=
  ⟨reachable_root fs, Or.inl ⟨rfl, rfl⟩, fun _ hp => absurd rfl hp⟩

/-- **Selection.**  From power-on, the runs of the browser in which after every event OK acts on what is highlighted are
those in which every event's requests meet the condition. -/
theorem selection_iff (fs : FileSystem) (is : List (BrowserInput fs)) (t : Browser) :
    Run (fun b i t => b.step fs i = some t ∧ SelectedInMenu fs t) Browser.init is t ↔
      Run (Guarded (fun b i t => b.step fs i = some t) (RequestsOk fs)) Browser.init is t := by
  have h0 : BrowserInv fs Browser.init ∧ SelectedInMenu fs Browser.init :=
    ⟨browserInv_init fs, fun h => by cases h⟩
  refine run_congr_of_invariant (I := fun b => BrowserInv fs b ∧ SelectedInMenu fs b) h0 (fun b i t hI => ?_)
    (fun b i t hI hR => ?_) is t
  · constructor
    · rintro ⟨hstep, hsel⟩
      exact ⟨hstep, (step_spec hI.1 hI.2 hstep).2.mp hsel⟩
    · rintro ⟨hstep, hok⟩
      exact ⟨hstep, (step_spec hI.1 hI.2 hstep).2.mpr hok⟩
  · exact ⟨(step_spec hI.1 hI.2 hR.1).1 hR.2, hR.2⟩

/-- One directory with five files. -/
def fiveFiles : FileSystem where
  isDir p := p = sdCardRootDir
  dir _ := List.replicate 5 ⟨1, 10, text "part.gcode" ++ [0], rfl⟩
  chDir _ _ := sdCardRootDir
  root := rfl
  nonempty p hp := by
    rw [hp]
    decide
  keep _ _ _ := rfl
  enter _ p hp := hp.symm
  length_le c p hc := by
    rw [hc]
    exact le_max_left _ _

/-- The menu with the cursor on an index and a page loaded. -/
def fiveFilesAt (index page : ℕ) : Browser :=
  let l := pageReply fiveFiles sdCardRootDir page
  ⟨index, l, some (drawn l index), true, sdCardRootDir, 0, 0⟩

/-- The menu is entered, the cursor goes down to the second page and up again, and this request is not sent: the second
page is shown with its last row highlighted, which is empty, and OK prints the fourth file. -/
theorem failed_request_keeps_page :
    let down : BrowserInput fiveFiles := ⟨.down, .answered, .answered⟩
    let t := fiveFilesAt 4 1
    Run (fun b i t => b.step fiveFiles i = some t) Browser.init
        [⟨.enter, .answered, .answered⟩, down, down, down, down, down, ⟨.up, .sendFailed, .answered⟩] t ∧
      t.inMenu = true ∧ ¬ Selected fiveFiles t ∧ t.screen.bind (fun s => s.rows[s.highlight]?) = some [] ∧
      okAction fiveFiles t .answered .busy = some (t, .root) ∧ t.fileListItemIndex = 4 := by
  intro down t
  have h0 : Browser.init.step fiveFiles ⟨.enter, .answered, .answered⟩ = some (fiveFilesAt 0 0) := rfl
  have h1 : (fiveFilesAt 0 0).step fiveFiles down = some (fiveFilesAt 1 0) := rfl
  have h2 : (fiveFilesAt 1 0).step fiveFiles down = some (fiveFilesAt 2 0) := rfl
  have h3 : (fiveFilesAt 2 0).step fiveFiles down = some (fiveFilesAt 3 0) := rfl
  have h4 : (fiveFilesAt 3 0).step fiveFiles down = some (fiveFilesAt 4 0) := rfl
  have h5 : (fiveFilesAt 4 0).step fiveFiles down = some (fiveFilesAt 5 1) := rfl
  have h6 : (fiveFilesAt 5 1).step fiveFiles ⟨.up, .sendFailed, .answered⟩ = some t := rfl
  refine ⟨.snoc (.snoc (.snoc (.snoc (.snoc (.snoc (.snoc (.nil _) h0) h1) h2) h3) h4) h5) h6, rfl, fun h => ?_, rfl,
    rfl, rfl⟩
  exact absurd h.page (by decide)

end Runs

end Cxsw.SdCard
