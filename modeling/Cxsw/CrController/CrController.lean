import Mathlib.Data.List.Nodup
import Cxsw.CrMenu.MenuDefaultAction

/-!
# Cxsw.CrController.CrController — the cursor of the menu (`CrController.cpp`, `ShowAction.cpp`)

`SwitchPorcess` takes an OK, an up or down action or the idle time, moves the cursor `PCurItem` or the menu
`PCurMenuArray`, and has `ShowItems` draw what is current.  The hide mask is a global that other threads change between
two events.

* `CursorKept`: what an event owes to the cursor, to what is drawn and to the action that runs.
* `cursor_run_iff`: the runs all of whose events keep it.
-/

namespace Cxsw.Menu

/-! ## The controller -/

section Controller

variable {α : Type*}

/-- The test `(HideMask & mask) == 0` of an item. -/
def MenuItem.Shown (i : MenuItem α) (mask : BitVec 32) : Prop := i.hideMask &&& mask = 0

instance (i : MenuItem α) (mask : BitVec 32) : Decidable (i.Shown mask) := inferInstanceAs (Decidable (_ = _))

/-- A menu tree: no menu is empty, no item leads back to a menu that leads to its own, and an item with an action of its
own leads nowhere.  `maxRow` are the rows of the display. -/
structure MenuTree (α : Type*) extends MenuGraph α where
  nonempty : ∀ a, items a ≠ []
  noBack : ∀ a b, ∀ i ∈ items a, ∀ j ∈ items b, i.next = some b → j.next ≠ some a
  ownNext : ∀ a, ∀ i ∈ items a, i.okAction = some .own → i.next = none
  maxRow : ℕ
  maxRow_pos : 0 < maxRow

/-- A mask under which the first item of every menu is visible. -/
def Mask (t : MenuTree α) : Type := { m : BitVec 32 // ∀ a i, (t.items a).head? = some i → i.Shown m }

/-- The stack and the cursor (`Nav`), the mask, the two ticks, and `StartIndex` and `EndIndex` of the page. -/
structure Controller (t : MenuTree α) extends Nav α where
  hideMask : Mask t
  optTick : BitVec 32
  rootShowTick : BitVec 32
  startIndex : ℕ
  endIndex : ℕ

variable (t : MenuTree α)

/-- The item that a pointer points to, none at `MENU_ITEM_FINISH` and beyond. -/
def itemAt (p : ItemPtr α) : Option (MenuItem α) := (t.items p.array)[p.index]?

/-- The loop of the up action: back over the hidden items.  The first item is never hidden. -/
def skipUp (items : List (MenuItem α)) (mask : BitVec 32) : ℕ → ℕ
  | 0 => 0
  | n + 1 => if ∃ i, items[n + 1]? = some i ∧ i.Shown mask then n + 1 else skipUp items mask n

/-- The loop of the down action: on over the hidden items, none at `MENU_ITEM_FINISH`. -/
def skipDown (items : List (MenuItem α)) (mask : BitVec 32) (index : ℕ) : Option ℕ :=
  ((items.drop index).findIdx? fun i => decide (i.Shown mask)).map (index + ·)

variable [DecidableEq α]

/-- `GetItemIndex` of a pointer into a menu array. -/
def getItemIndex (p : ItemPtr α) (array : Option α) : Option ℕ :=
  if array = some p.array ∧ p.index < (t.items p.array).length then some p.index else none

/-- `MoveToPrevItem`. -/
def moveToPrevItem (p : ItemPtr α) (array : Option α) : Option (ItemPtr α) :=
  (getItemIndex t p array).map fun index => if index = 0 then p else { p with index := index - 1 }

/-- `MoveToNextItem`. -/
def moveToNextItem (p : ItemPtr α) (array : Option α) : Option (ItemPtr α) :=
  (getItemIndex t p array).map fun index =>
    if index = (t.items p.array).length - 1 then p else { p with index := index + 1 }

end Controller

/-! ## What is drawn -/

section Show

variable {α : Type*}

/-- `enum MenuType`. -/
inductive MenuType where
  | normal
  | rollBack
  | father

/-- `struct MenuShowInfo_t` of an item that is shown. -/
structure Row where
  index : ℤ
  highligh : Bool
  menuType : MenuType

/-- What `ShowItems` draws: nothing, the page of a menu with a single item, or rows. -/
inductive Frame where
  | nothing
  | page
  | rows (rows : List Row)

variable (t : MenuTree α)

/-- The indices of the shown items, `Temp[0]` to `Temp[Flag - 1]`. -/
def shownItems (items : List (MenuItem α)) (mask : BitVec 32) : List ℕ :=
  (List.range items.length).filter fun n => decide (∃ i, items[n]? = some i ∧ i.Shown mask)

/-- `SwitchPageSub`: the page of the current item. -/
def switchPageSub (items : List (MenuItem α)) (curIndex : ℕ) (s : Controller t) : Controller t :=
  let temp := shownItems items s.hideMask.val
  { s with
    startIndex := if curIndex ∈ temp then temp.idxOf curIndex / t.maxRow * t.maxRow else s.startIndex
    endIndex := (temp.getLast?).getD s.endIndex }

variable [DecidableEq α]

/-- The row of an item. -/
def rowOf (items : List (MenuItem α)) (curIndex startIndex flag index : ℕ) : Row where
  index := flag - startIndex
  highligh := decide (index = curIndex)
  menuType :=
    match items[index]? with
    | some i => if i.next = none ∧ i.okAction.isNone then .rollBack else if i.next.isSome then .father else .normal
    | none => .normal

/-- `ShowItems`. -/
def showItems (s : Controller t) : Controller t × Frame :=
  match s.curMenuArray, getItemIndex t s.curItem s.curMenuArray with
  | some a, some curIndex =>
    let items := t.items a
    if items.length = 1 then (s, .page)
    else
      let s := switchPageSub t items curIndex s
      (s, .rows ((shownItems items s.hideMask.val).mapIdx (rowOf items curIndex s.startIndex)))
  | _, _ => (s, .nothing)

end Show

/-! ## The events -/

section Events

variable {α : Type*} [DecidableEq α] (t : MenuTree α)

/-- `MENUITEM_STAY_TIME`, `ROOT_SHOW_INTERVAL`. -/
def menuitemStayTime : BitVec 32 := 10000
def rootShowInterval : BitVec 32 := 1000

/-- What an action of the item's own does: `BackParent` and the mask that it leaves. -/
structure Outcome (t : MenuTree α) where
  backParent : BitVec 32
  hideMask : Mask t

/-- `BACK_PARENT`, `BACK_ROOT`. -/
def backParent : BitVec 32 := 1
def backRoot : BitVec 32 := 2

/-- The calls of `SwitchPorcess`, with the ticks it reads, and changes of the mask between them. -/
inductive MenuEvent (t : MenuTree α) where
  | ok (tick : BitVec 32) (outcome : Outcome t)
  | up (tick : BitVec 32)
  | down (tick : BitVec 32)
  | idle (tick shown : BitVec 32)
  | mask (m : Mask t)

/-- A move to another menu; a failed one returns at once. -/
def switchMenu (s : Controller t) (c : NavCall) : Controller t × Option Bool :=
  ({ s with toNav := navStep t.toMenuGraph menuarrayStackCapacity s.toNav c },
    if (navCall t.toMenuGraph menuarrayStackCapacity s.toNav c).1.isSome then some true else none)

/-- The OK action of the current item. -/
def okAction (s : Controller t) (outcome : Outcome t) : Controller t × Option Bool :=
  match itemAt t s.curItem with
  | none => (s, none)
  | some item =>
    match item.okAction, item.next with
    | none, none => switchMenu t s .parant
    | none, some _ => (s, some false)
    | some .moveToChild, some _ => switchMenu t s (.child s.curItem.index)
    -- `MoveToChild` without a destination does nothing
    | some .moveToChild, none => (s, some true)
    | some .own, none =>
      let s := { s with hideMask := outcome.hideMask }
      if outcome.backParent = backRoot then switchMenu t s .root
      else if outcome.backParent = backParent then switchMenu t s .parant
      else (s, some true)
    -- no item of a menu tree
    | some .own, some _ => (s, none)

/-- The up action of the current item. -/
def upAction (s : Controller t) : Controller t × Option Bool :=
  match (itemAt t s.curItem).bind MenuItem.upAction with
  | none => (s, some false)
  | some .own => (s, some true)
  | some .moveItem =>
    match moveToPrevItem t s.curItem s.curMenuArray with
    | none => (s, none)
    | some p => ({ s with curItem := { p with index := skipUp (t.items p.array) s.hideMask.val p.index } }, some true)

/-- The down action of the current item. -/
def downAction (s : Controller t) : Controller t × Option Bool :=
  match (itemAt t s.curItem).bind MenuItem.downAction with
  | none => (s, some false)
  | some .own => (s, some true)
  | some .moveItem =>
    match moveToNextItem t s.curItem s.curMenuArray with
    | none => (s, none)
    | some p =>
      match skipDown (t.items p.array) s.hideMask.val p.index with
      | none => (s, some true)
      | some index => ({ s with curItem := { p with index := index } }, some true)

/-- The idle time: back to the root, or the root page again. -/
def idleAction (s : Controller t) (tick shown : BitVec 32) : Controller t × Option Bool :=
  if tick - s.optTick < menuitemStayTime then (s, some false)
  else if s.curItem ≠ ⟨t.root, 0⟩ then
    let (s, res) := switchMenu t s .root
    ({ s with rootShowTick := shown }, res)
  else if rootShowInterval < shown - s.rootShowTick then ({ s with rootShowTick := shown }, some true)
  else (s, some false)

/-- The end of `SwitchPorcess`: it draws unless the action returned at once or changed nothing. -/
def finish (r : Controller t × Option Bool) : Controller t × Frame :=
  match r.2 with
  | none => (r.1, .nothing)
  | some res =>
    let s :=
      if r.1.curMenuArray = some t.root ∨ r.1.curItem = ⟨t.root, 0⟩ then
        { r.1 with optTick := r.1.optTick - menuitemStayTime }
      else r.1
    if res then showItems t s else (s, .nothing)

/-- An event, with what is drawn. -/
def switchPorcess (s : Controller t) (e : MenuEvent t) : Controller t × Frame :=
  match e with
  | .ok tick outcome => finish t (okAction t { s with optTick := tick } outcome)
  | .up tick => finish t (upAction t { s with optTick := tick })
  | .down tick => finish t (downAction t { s with optTick := tick })
  | .idle tick shown => finish t (idleAction t s tick shown)
  | .mask m => ({ s with hideMask := m }, .nothing)

def menuStep (s : Controller t) (e : MenuEvent t) : Controller t := (switchPorcess t s e).1

/-- `CrControllerInit`. -/
def menuStart (m : Mask t) : Controller t where
  toNav := navStart t.toMenuGraph
  hideMask := m
  optTick := 0
  rootShowTick := 0
  startIndex := 0
  endIndex := 1

end Events

/-! ## What an event owes -/

section Kept

variable {α : Type*} [DecidableEq α] (t : MenuTree α)

/-- The cursor points to a visible item of the current menu. -/
def Inside (s : Controller t) : Prop :=
  ∃ a i, s.curMenuArray = some a ∧ s.curItem.array = a ∧ itemAt t s.curItem = some i ∧ i.Shown s.hideMask.val

/-- Exactly one row is highlighted, and it is on the display. -/
def HighlightsOne (rows : List Row) : Prop :=
  ∃ (k : ℕ) (r : Row), rows[k]? = some r ∧ r.highligh = true ∧ 0 ≤ r.index ∧ r.index < t.maxRow ∧
    ∀ (k' : ℕ) (r' : Row), rows[k']? = some r' → r'.highligh = true → k' = k

/-- What an event owes; a menu of one item has a page of its own and no rows. -/
structure CursorKept (s : Controller t) (e : MenuEvent t) : Prop where
  inside : Inside t (menuStep t s e)
  drawn : ∀ rows, (switchPorcess t s e).2 = .rows rows → HighlightsOne t rows
  runs : ∀ tick outcome i, e = .ok tick outcome → itemAt t s.curItem = some i → i.Shown s.hideMask.val

/-- The item under the cursor is visible. -/
def CursorShown (s : Controller t) : Prop := ∀ i, itemAt t s.curItem = some i → i.Shown s.hideMask.val

/-- A step back: from the root, while nothing is on the stack, it leaves the cursor; otherwise the current menu is not
at the bottom, and the item of the menu below that leads to it is visible. -/
def BackOk (s : Controller t) : Prop :=
  if s.stack = [] then CursorShown t s
  else
    match s.stack.dropLast.getLast? with
    | none => False
    | some dest =>
      ∀ i, (t.items dest)[landing t.toMenuGraph dest s.curItem.array]? = some i → i.Shown s.hideMask.val

/-- The events that keep what they owe: a change of the mask, also by an action, leaves the item under the cursor
visible, and a step back is as above. -/
def EventOk (s : Controller t) (e : MenuEvent t) : Prop :=
  match e with
  | .mask m => CursorShown t { s with hideMask := m }
  | .up _ | .down _ | .idle _ _ => True
  | .ok _ outcome =>
    match itemAt t s.curItem with
    | some ⟨none, _, _, _, none⟩ => BackOk t s
    | some ⟨some .own, _, _, _, none⟩ =>
      if outcome.backParent = backRoot then True
      else if outcome.backParent = backParent then BackOk t { s with hideMask := outcome.hideMask }
      else CursorShown t { s with hideMask := outcome.hideMask }
    | _ => True

/-- The invariant of the events. -/
structure CtrlInv (s : Controller t) : Prop where
  nav : NavInv t.toMenuGraph menuarrayStackCapacity s.toNav
  inside : Inside t s

end Kept

/-! ## The loops -/

section Loops

variable {α : Type*} {items : List (MenuItem α)} {mask : BitVec 32}

theorem skipUp_spec (hfirst : ∃ i, items[0]? = some i ∧ i.Shown mask) (n : ℕ) :
    ∃ i, items[skipUp items mask n]? = some i ∧ i.Shown mask := by
  induction n with
  | zero => exact hfirst
  | succ n ih =>
    unfold skipUp
    split
    · next hshown => exact hshown
    · exact ih

theorem skipDown_spec {n k : ℕ} (h : skipDown items mask n = some k) :
    ∃ i, items[k]? = some i ∧ i.Shown mask := by
  obtain ⟨m, hm, rfl⟩ := Option.map_eq_some_iff.mp h
  obtain ⟨hlt, hshown, -⟩ := List.findIdx?_eq_some_iff_getElem.mp hm
  rw [List.getElem_drop] at hshown
  rw [List.length_drop] at hlt
  exact ⟨items[n + m], List.getElem?_eq_getElem (by omega), by simpa using hshown⟩

theorem mem_shownItems {n : ℕ} : n ∈ shownItems items mask ↔ ∃ i, items[n]? = some i ∧ i.Shown mask := by
  unfold shownItems
  rw [List.mem_filter, List.mem_range, decide_eq_true_iff]
  constructor
  · exact fun h => h.2
  · rintro ⟨i, hi, hshown⟩
    exact ⟨(List.getElem?_eq_some_iff.mp hi).1, i, hi, hshown⟩

theorem shownItems_nodup : (shownItems items mask).Nodup := List.nodup_range.filter _

end Loops

/-! ## Drawing -/

section Drawing

variable {α : Type*} [DecidableEq α] {t : MenuTree α} {s : Controller t}

theorem getItemIndex_inside (h : Inside t s) : getItemIndex t s.curItem s.curMenuArray = some s.curItem.index := by
  obtain ⟨a, i, hcur, harray, hitem, -⟩ := h
  have hlt : s.curItem.index < (t.items s.curItem.array).length := (List.getElem?_eq_some_iff.mp hitem).1
  unfold getItemIndex
  rw [if_pos ⟨by rw [hcur, harray], hlt⟩]


omit [DecidableEq α] in
/-- The rows that are drawn for a visible cursor. -/
theorem highlightsOne_rows {items : List (MenuItem α)} {mask : BitVec 32} {curIndex : ℕ}
    (h : curIndex ∈ shownItems items mask) :
    HighlightsOne t ((shownItems items mask).mapIdx
      (rowOf items curIndex ((shownItems items mask).idxOf curIndex / t.maxRow * t.maxRow))) := by
  set temp := shownItems items mask with htemp
  set k := temp.idxOf curIndex with hk
  have hlt : k < temp.length := List.idxOf_lt_length_of_mem h
  have hget : temp[k]? = some curIndex := by
    rw [List.getElem?_eq_getElem hlt]
    exact congrArg some (List.getElem_idxOf hlt)
  refine ⟨k, rowOf items curIndex (k / t.maxRow * t.maxRow) k curIndex, ?_, ?_, ?_, ?_, ?_⟩
  · rw [List.getElem?_mapIdx, hget]
    rfl
  · simp [rowOf]
  · simp only [rowOf]
    have hle := Nat.div_mul_le_self k t.maxRow
    omega
  · simp only [rowOf]
    have hmod := Nat.mod_lt k t.maxRow_pos
    have hdiv := Nat.div_add_mod' k t.maxRow
    omega
  · intro k' r' hr' hhigh
    rw [List.getElem?_mapIdx] at hr'
    obtain ⟨n, hn, rfl⟩ := Option.map_eq_some_iff.mp hr'
    have hcur : n = curIndex := by simpa [rowOf] using hhigh
    rw [hcur] at hn
    obtain ⟨hlt', heq⟩ := List.getElem?_eq_some_iff.mp hn
    rw [hk, ← heq]
    exact (shownItems_nodup.idxOf_getElem k' hlt').symm

theorem showItems_keeps (s : Controller t) :
    (showItems t s).1.toNav = s.toNav ∧ (showItems t s).1.hideMask = s.hideMask := by
  unfold showItems
  split
  · dsimp only
    split
    · exact ⟨rfl, rfl⟩
    · exact ⟨rfl, rfl⟩
  · exact ⟨rfl, rfl⟩

theorem showItems_highlights (h : Inside t s) {rows : List Row} (hrows : (showItems t s).2 = .rows rows) :
    HighlightsOne t rows := by
  have hindex := getItemIndex_inside h
  obtain ⟨a, i, hcur, harray, hitem, hshown⟩ := h
  unfold showItems at hrows
  rw [hindex, hcur] at hrows
  dsimp only at hrows
  split at hrows
  · cases hrows
  · have hmem : s.curItem.index ∈ shownItems (t.items a) s.hideMask.val := by
      rw [mem_shownItems, ← harray]
      exact ⟨i, hitem, hshown⟩
    have hone := highlightsOne_rows (t := t) hmem
    simp only [switchPageSub, if_pos hmem, Frame.rows.injEq] at hrows
    rw [← hrows]
    exact hone

end Drawing

/-! ## The step lemma -/

section Step

variable {α : Type*} [DecidableEq α] {t : MenuTree α} {s : Controller t}

omit [DecidableEq α] in
theorem first_shown (t : MenuTree α) (m : Mask t) (a : α) : ∃ i, (t.items a)[0]? = some i ∧ i.Shown m.val := by
  cases hitems : t.items a with
  | nil => exact absurd hitems (t.nonempty a)
  | cons i rest => exact ⟨i, rfl, m.property a i (by rw [hitems]; rfl)⟩

/-- The item on which a menu is entered exists. -/
theorem landing_exists (t : MenuTree α) (dest src : α) :
    ∃ i, (t.items dest)[landing t.toMenuGraph dest src]? = some i := by
  unfold landing
  cases hfind : (t.items dest).findIdx? fun i => decide (i.next = some src) with
  | none =>
    cases hitems : t.items dest with
    | nil => exact absurd hitems (t.nonempty dest)
    | cons i rest => exact ⟨i, rfl⟩
  | some n =>
    obtain ⟨hlt, -, -⟩ := List.findIdx?_eq_some_iff_getElem.mp hfind
    exact ⟨(t.items dest)[n], List.getElem?_eq_getElem hlt⟩

/-- A child is entered on its first item. -/
theorem landing_child {a dest : α} {i : MenuItem α} (hmem : i ∈ t.items a) (hnext : i.next = some dest) :
    landing t.toMenuGraph dest a = 0 := by
  unfold landing
  have hnone : ((t.items dest).findIdx? fun j => decide (j.next = some a)) = none := by
    rw [List.findIdx?_eq_none_iff]
    intro j hj
    simpa using t.noBack a dest i hmem j hj hnext
  rw [hnone]
  rfl

/-- The end of `SwitchPorcess` leaves the cursor and the mask, and draws what is current. -/
theorem finish_keeps (r : Controller t × Option Bool) :
    (finish t r).1.toNav = r.1.toNav ∧ (finish t r).1.hideMask = r.1.hideMask := by
  unfold finish
  split
  · exact ⟨rfl, rfl⟩
  · dsimp only
    split
    · obtain ⟨hnav, hmask⟩ := showItems_keeps (t := t)
        (if r.1.curMenuArray = some t.root ∨ r.1.curItem = ⟨t.root, 0⟩ then
          { r.1 with optTick := r.1.optTick - menuitemStayTime } else r.1)
      rw [hnav, hmask]
      split <;> exact ⟨rfl, rfl⟩
    · split <;> exact ⟨rfl, rfl⟩

omit [DecidableEq α] in
theorem inside_congr {s s' : Controller t} (hnav : s'.toNav = s.toNav) (hmask : s'.hideMask = s.hideMask) :
    Inside t s' ↔ Inside t s := by
  unfold Inside
  rw [hnav, hmask]

theorem inside_finish (r : Controller t × Option Bool) : Inside t (finish t r).1 ↔ Inside t r.1 :=
  inside_congr (finish_keeps r).1 (finish_keeps r).2

theorem finish_highlights {r : Controller t × Option Bool} (h : Inside t r.1) {rows : List Row}
    (hrows : (finish t r).2 = .rows rows) : HighlightsOne t rows := by
  unfold finish at hrows
  split at hrows
  · cases hrows
  · dsimp only at hrows
    split at hrows
    · refine showItems_highlights ?_ hrows
      split
      · exact h
      · exact h
    · cases hrows

omit [DecidableEq α] in
/-- The cursor where it was. -/
theorem inside_of_shown {m : Mask t} (h : Inside t s) :
    Inside t { s with hideMask := m } ↔ CursorShown t { s with hideMask := m } := by
  obtain ⟨a, i, hcur, harray, hitem, -⟩ := h
  constructor
  · rintro ⟨_, j, -, -, hj, hshown⟩ k hk
    obtain rfl := Option.some.inj (hj.symm.trans hk)
    exact hshown
  · intro hshown
    exact ⟨a, i, hcur, harray, hitem, hshown i hitem⟩

theorem switchMenu_root (s : Controller t) :
    NavInv t.toMenuGraph menuarrayStackCapacity (switchMenu t s .root).1.toNav ∧ Inside t (switchMenu t s .root).1 := by
  refine ⟨(nav_root s.toNav).2, ?_⟩
  obtain ⟨i, hi, hshown⟩ := first_shown t s.hideMask t.root
  exact ⟨t.root, i, rfl, rfl, hi, hshown⟩

/-- A move that fails leaves the cursor. -/
theorem switchMenu_fails {c : NavCall}
    (hfail : (navCall t.toMenuGraph menuarrayStackCapacity s.toNav c).1 = none) :
    Inside t (switchMenu t s c).1 ↔ Inside t s := by
  have hstep : navStep t.toMenuGraph menuarrayStackCapacity s.toNav c =
      { s.toNav with
        stack := (navCall t.toMenuGraph menuarrayStackCapacity s.toNav c).2.2
        entered := none } := by
    simp only [navStep]
    rw [hfail]
  unfold Inside switchMenu
  simp only [hstep]

/-- A move into a child enters it on its first item. -/
theorem switchMenu_child (h : CtrlInv t s) :
    CtrlInv t (switchMenu t s (.child s.curItem.index)).1 := by
  refine ⟨(h.nav.child s.curItem.index).2, ?_⟩
  cases hcall : (navCall t.toMenuGraph menuarrayStackCapacity s.toNav (.child s.curItem.index)).1 with
  | none => exact (switchMenu_fails hcall).mpr h.inside
  | some p =>
    obtain ⟨a, -, hcur, -, -, -⟩ := h.inside
    cases hchild : childOf t.toMenuGraph s.toNav s.curItem.index with
    | none =>
      simp only [navCall, hchild] at hcall
      cases hcall
    | some dest =>
      obtain ⟨item, hmem, hnext⟩ := childOf_spec hcur hchild
      obtain ⟨i, hi, hshown⟩ := first_shown t s.hideMask dest
      have hp : p = ⟨dest, landing t.toMenuGraph dest a⟩ := by
        simp only [navCall, hchild, hcur] at hcall
        exact moveToChild_item hcall
      rw [landing_child hmem hnext] at hp
      have hstep : (switchMenu t s (.child s.curItem.index)).1.curMenuArray = some dest ∧
          (switchMenu t s (.child s.curItem.index)).1.curItem = p := by
        simp only [switchMenu, navStep, hcall]
        simp only [navCall, hchild]
        exact ⟨trivial, trivial⟩
      refine ⟨dest, i, hstep.1, ?_, ?_, hshown⟩
      · rw [hstep.2, hp]
      · rw [hstep.2, hp]
        exact hi

/-- A step back keeps the cursor inside exactly on its condition. -/
theorem switchMenu_parant (hnav : NavInv t.toMenuGraph menuarrayStackCapacity s.toNav) {a : α}
    (hcur : s.curMenuArray = some a) (harray : s.curItem.array = a)
    (hinside : Inside t s ↔ CursorShown t s) :
    (Inside t (switchMenu t s .parant).1 ↔ BackOk t s) ∧
      (BackOk t s → NavInv t.toMenuGraph menuarrayStackCapacity (switchMenu t s .parant).1.toNav) := by
  rcases hnav.onTop with ⟨hempty, -⟩ | ⟨b, hb, htop⟩
  · have hcall : (navCall t.toMenuGraph menuarrayStackCapacity s.toNav .parant).1 = none := by
      simp [navCall, moveToParant, hcur, hempty]
    refine ⟨?_, fun _ => (hnav.parant).2 (Or.inl hempty)⟩
    rw [switchMenu_fails hcall, hinside, BackOk, if_pos hempty]
  obtain rfl := Option.some.inj (hb.symm.trans hcur)
  have hne : s.stack ≠ [] := by
    intro hnil
    simp [hnil] at htop
  rcases moveToParant_cases (g := t.toMenuGraph) hnav.nodup hnav.length htop with
    ⟨hstack, hmove⟩ | ⟨base, dest, hstack, hmove⟩
  · have hnot : ¬ BackOk t s := by
      simp [BackOk, hstack]
    refine ⟨iff_of_false ?_ hnot, fun hok => absurd hok hnot⟩
    rintro ⟨b', -, hcur', -⟩
    simp only [switchMenu, navStep, navCall, hcur, hmove] at hcur'
    cases hcur'
  have hbelow : s.stack.dropLast.getLast? = some dest := by
    rw [hstack, show base ++ [dest, b] = (base ++ [dest]) ++ [b] by simp, List.dropLast_concat]
    exact List.getLast?_concat
  rcases hmove with ⟨-, hitems⟩ | hmove
  · exact absurd hitems (t.nonempty dest)
  refine ⟨?_, fun _ => (hnav.parant).2 (hnav.navOk_above hcur hstack)⟩
  obtain ⟨i, hi⟩ := landing_exists t dest b
  have hland : BackOk t s ↔ i.Shown s.hideMask.val := by
    rw [BackOk, if_neg hne, hbelow, harray]
    simp only [hi, Option.some.injEq, forall_eq']
  rw [hland]
  have hstep : (switchMenu t s .parant).1.curMenuArray = some dest ∧
      (switchMenu t s .parant).1.curItem = ⟨dest, landing t.toMenuGraph dest b⟩ := by
    simp only [switchMenu, navStep, navCall, hcur, hmove]
    exact ⟨trivial, trivial⟩
  constructor
  · rintro ⟨_, j, -, -, hj, hshown⟩
    rw [hstep.2] at hj
    obtain rfl := Option.some.inj (hi.symm.trans hj)
    exact hshown
  · intro hshown
    exact ⟨dest, i, hstep.1, by rw [hstep.2], by rw [hstep.2]; exact hi, hshown⟩

omit [DecidableEq α] in
/-- A new mask under the same cursor. -/
theorem CtrlInv.mask (h : CtrlInv t s) (m : Mask t) :
    (Inside t { s with hideMask := m } ↔ CursorShown t { s with hideMask := m }) ∧
      NavInv t.toMenuGraph menuarrayStackCapacity ({ s with hideMask := m } : Controller t).toNav :=
  ⟨inside_of_shown h.inside, h.nav⟩

theorem CtrlInv.okAction (h : CtrlInv t s) (tick : BitVec 32) (outcome : Outcome t) :
    (Inside t (okAction t s outcome).1 ↔ EventOk t s (.ok tick outcome)) ∧
      (EventOk t s (.ok tick outcome) →
        NavInv t.toMenuGraph menuarrayStackCapacity (okAction t s outcome).1.toNav) := by
  obtain ⟨a, item, hcur, harray, hitem, hshown⟩ := h.inside
  have hmem : item ∈ t.items a := by
    rw [← harray]
    exact List.mem_of_getElem? hitem
  obtain ⟨ok, up, down, hide, next⟩ := item
  unfold EventOk Menu.okAction
  simp only [hitem]
  rcases ok with _ | _ | _ <;> rcases next with _ | dest
  · exact switchMenu_parant h.nav hcur harray (inside_of_shown (m := s.hideMask) h.inside)
  · exact ⟨iff_of_true h.inside trivial, fun _ => h.nav⟩
  · exact ⟨iff_of_true h.inside trivial, fun _ => h.nav⟩
  · have hchild := switchMenu_child h
    exact ⟨iff_of_true hchild.inside trivial, fun _ => hchild.nav⟩
  · obtain ⟨hinside, hnav⟩ := h.mask outcome.hideMask
    dsimp only
    split_ifs with hroot hback
    · obtain ⟨hnav', hinside'⟩ := switchMenu_root { s with hideMask := outcome.hideMask }
      exact ⟨iff_of_true hinside' trivial, fun _ => hnav'⟩
    · exact switchMenu_parant hnav hcur harray hinside
    · exact ⟨hinside, fun _ => hnav⟩
  · have hnone := t.ownNext a _ hmem rfl
    cases hnone

/-- The up and down actions. -/
theorem CtrlInv.upAction (h : CtrlInv t s) : CtrlInv t (upAction t s).1 := by
  have hindex := getItemIndex_inside h.inside
  obtain ⟨a, item, hcur, harray, hitem, hshown⟩ := h.inside
  unfold Menu.upAction
  split
  · exact h
  · exact h
  · simp only [moveToPrevItem, hindex, Option.map_some]
    have hmoved : ∀ p : ItemPtr α, p.array = a → CtrlInv t { s with
        curItem := { p with index := skipUp (t.items p.array) s.hideMask.val p.index } } := by
      intro p hp
      obtain ⟨i, hi, hshown'⟩ := skipUp_spec (first_shown t s.hideMask p.array) p.index
      exact ⟨⟨h.nav.nodup, h.nav.length, h.nav.onTop, h.nav.entered⟩, a, i, hcur, hp, hi, hshown'⟩
    split
    · exact hmoved _ harray
    · exact hmoved _ harray

theorem CtrlInv.downAction (h : CtrlInv t s) : CtrlInv t (downAction t s).1 := by
  have hindex := getItemIndex_inside h.inside
  obtain ⟨a, item, hcur, harray, hitem, hshown⟩ := h.inside
  unfold Menu.downAction
  split
  · exact h
  · exact h
  · simp only [moveToNextItem, hindex, Option.map_some]
    split
    · exact h
    · next n hskip =>
      obtain ⟨i, hi, hshown'⟩ := skipDown_spec hskip
      refine ⟨⟨h.nav.nodup, h.nav.length, h.nav.onTop, h.nav.entered⟩, a, i, hcur, ?_, hi, hshown'⟩
      split <;> exact harray

theorem CtrlInv.idleAction (h : CtrlInv t s) (tick shown : BitVec 32) : CtrlInv t (idleAction t s tick shown).1 := by
  unfold Menu.idleAction
  split_ifs
  · exact h
  · obtain ⟨hnav, hinside⟩ := switchMenu_root s
    exact ⟨hnav, (inside_congr rfl rfl).mp hinside⟩
  · exact ⟨h.nav, (inside_congr rfl rfl).mp h.inside⟩
  · exact h

/-- What is left to show once the cursor is known to stay inside. -/
theorem cursorKept_of_finish {e : MenuEvent t} {r : Controller t × Option Bool} (h : CtrlInv t s)
    (he : switchPorcess t s e = finish t r) (hinside : Inside t r.1) : CursorKept t s e := by
  refine ⟨?_, ?_, ?_⟩
  · rw [menuStep, he]
    exact (inside_finish r).mpr hinside
  · intro rows hrows
    rw [he] at hrows
    exact finish_highlights hinside hrows
  · intro tick outcome i _ hi
    obtain ⟨a, j, -, -, hj, hshown⟩ := h.inside
    obtain rfl := Option.some.inj (hi.symm.trans hj)
    exact hshown

theorem ctrlInv_finish {r : Controller t × Option Bool} (hnav : NavInv t.toMenuGraph menuarrayStackCapacity r.1.toNav)
    (hinside : Inside t r.1) : CtrlInv t (finish t r).1 := by
  refine ⟨?_, (inside_finish r).mpr hinside⟩
  rw [(finish_keeps r).1]
  exact hnav

/-- **Step lemma**: an event keeps what it owes exactly on its condition, and then the invariant. -/
theorem CtrlInv.step (h : CtrlInv t s) (e : MenuEvent t) :
    (CursorKept t s e ↔ EventOk t s e) ∧ (EventOk t s e → CtrlInv t (menuStep t s e)) := by
  cases e with
  | ok tick outcome =>
    have ht : CtrlInv t { s with optTick := tick } := ⟨h.nav, (inside_congr rfl rfl).mp h.inside⟩
    obtain ⟨hiff, hnav⟩ := ht.okAction tick outcome
    have hok : EventOk t { s with optTick := tick } (.ok tick outcome) ↔ EventOk t s (.ok tick outcome) := Iff.rfl
    rw [hok] at hiff hnav
    constructor
    · constructor
      · intro hkept
        exact hiff.mp ((inside_finish _).mp hkept.inside)
      · intro hev
        exact cursorKept_of_finish h rfl (hiff.mpr hev)
    · intro hev
      exact ctrlInv_finish (hnav hev) (hiff.mpr hev)
  | up tick =>
    have hup := CtrlInv.upAction (s := { s with optTick := tick }) ⟨h.nav, (inside_congr rfl rfl).mp h.inside⟩
    exact ⟨iff_of_true (cursorKept_of_finish h rfl hup.inside) trivial, fun _ => ctrlInv_finish hup.nav hup.inside⟩
  | down tick =>
    have hdown := CtrlInv.downAction (s := { s with optTick := tick }) ⟨h.nav, (inside_congr rfl rfl).mp h.inside⟩
    exact ⟨iff_of_true (cursorKept_of_finish h rfl hdown.inside) trivial,
      fun _ => ctrlInv_finish hdown.nav hdown.inside⟩
  | idle tick shown =>
    have hidle := h.idleAction tick shown
    exact ⟨iff_of_true (cursorKept_of_finish h rfl hidle.inside) trivial,
      fun _ => ctrlInv_finish hidle.nav hidle.inside⟩
  | mask m =>
    obtain ⟨hinside, hnav⟩ := h.mask m
    refine ⟨⟨fun hkept => hinside.mp hkept.inside, fun hev => ⟨hinside.mpr hev, ?_, ?_⟩⟩,
      fun hev => ⟨hnav, hinside.mpr hev⟩⟩
    · intro rows hrows
      cases hrows
    · intro tick outcome i he
      cases he

omit [DecidableEq α] in
theorem ctrlInv_start (m : Mask t) : CtrlInv t (menuStart t m) := by
  obtain ⟨i, hi, hshown⟩ := first_shown t m t.root
  exact ⟨navInv_start, t.root, i, rfl, rfl, hi, hshown⟩

end Step

/-! ## Runs -/

section Runs

variable {α : Type*} [DecidableEq α]

/-- **Every run**: all events keep what they owe exactly when all of them meet their condition. -/
theorem cursor_run_iff (t : MenuTree α) (m : Mask t) (es : List (MenuEvent t)) :
    AllSteps (menuStep t) (CursorKept t) (menuStart t m) es ↔
      AllSteps (menuStep t) (EventOk t) (menuStart t m) es :=
  allSteps_iff_of_invariant (fun _ e hinv => hinv.step e) (ctrlInv_start m) es

/-- A root page over a menu whose second item has an action of its own and the bit of the pause item. -/
def pauseItems : Bool → List (MenuItem Bool)
  | false => [⟨some .moveToChild, none, none, 1, some true⟩]
  | true => [⟨none, none, some .moveItem, 1, none⟩, ⟨some .own, some .moveItem, some .moveItem, 32, none⟩]

def pauseMenu : MenuTree Bool where
  items := pauseItems
  root := false
  nonempty := by decide
  noBack := by decide
  ownNext := by decide
  maxRow := 2
  maxRow_pos := by decide

/-- The masks without and with the bit of the pause item. -/
def pauseMask (hidden : Bool) : Mask pauseMenu :=
  ⟨if hidden then 32 else 0, by
    intro a i hi
    cases a <;> cases hidden <;> obtain rfl := Option.some.inj hi <;> rfl⟩

/-- The cursor is moved to the second item, and then its bit is set. -/
def hiddenUnderCursor : List (MenuEvent pauseMenu) :=
  [.ok 0 ⟨0, pauseMask false⟩, .down 0, .mask (pauseMask true)]

theorem cursor_on_hidden :
    ¬ AllSteps (menuStep pauseMenu) (CursorKept pauseMenu) (menuStart pauseMenu
      (pauseMask false)) hiddenUnderCursor := by
  intro h
  have hok : AllSteps (menuStep pauseMenu) (EventOk pauseMenu) (menuStart pauseMenu (pauseMask false))
      hiddenUnderCursor :=
    (allSteps_iff_of_invariant (fun _ e hinv => hinv.step e) (ctrlInv_start _) _).mp h
  obtain ⟨-, -, hshown, -⟩ := hok
  exact absurd (hshown _ rfl) (by decide)

end Runs

end Cxsw.Menu
