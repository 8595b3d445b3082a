import Mathlib.Data.List.Nodup
import Mathlib.Data.List.TakeWhile
import Mathlib.Tactic.Common
import Cxsw.Lib.Run

/-!
# Cxsw.CrMenu.MenuDefaultAction — the menu stack (`CrMenu/Action/MenuStack.c`, `MenuDefaultAction.cpp`)

A menu is an array of items; an item may lead to another menu.  `MoveToChild` pushes the menu it leaves and the menu it
enters, or, where the destination is on the stack already, pops down to it; `MoveToParant` moves to the menu below the
current one.

* `moveToChild_eq`: the two outcomes of `MoveToChild` on a stack with distinct entries.
* `NavKept`: what a move owes to the stack, to the array it returns and to the way back.
* `navKept_iff`, `nav_run_iff`: the moves that keep it, in one step and in a run.
-/

namespace Cxsw.Menu

/-! ## Menus and the stack -/

section Defs

/-- An `OkAction`: the default one, or an action of the item's own. -/
inductive OkAction where
  | moveToChild
  | own
  deriving DecidableEq

/-- An `UpAction` or `DownAction`: the default one, or an action of the item's own. -/
inductive StepAction where
  | moveItem
  | own
  deriving DecidableEq

/-- `struct MenuItem_t`, without the text and the drawing function. -/
structure MenuItem (α : Type*) where
  okAction : Option OkAction
  upAction : Option StepAction
  downAction : Option StepAction
  hideMask : BitVec 32
  next : Option α

/-- The menu arrays, each up to `MENU_ITEM_FINISH`, and `RootMenu`. -/
structure MenuGraph (α : Type*) where
  items : α → List (MenuItem α)
  root : α

/-- A pointer to an item of a menu array. -/
structure ItemPtr (α : Type*) where
  array : α
  index : ℕ
  deriving DecidableEq

variable {α : Type*} [DecidableEq α]

/-- `MenuStackPush`; the last entry is on top. -/
def menuStackPush (capacity : ℕ) (stack : List α) (a : α) : Option (List α) :=
  if stack.length = capacity then none else some (stack ++ [a])

/-- `MenuStackMultiPop`. -/
def menuStackMultiPop (stack : List α) (count : ℕ) : List α := stack.take (stack.length - count)

/-- `MenuStackNodeIndex` of an entry. -/
def menuStackNodeIndex (stack : List α) (a : α) : ℕ := stack.idxOf a

/-- The first item of `dest` that leads to `src`, or the first item. -/
def landing (g : MenuGraph α) (dest src : α) : ℕ :=
  ((g.items dest).findIdx? fun i => decide (i.next = some src)).getD 0

/-- `MoveToChild`: the item returned and the stack afterwards. -/
def moveToChild (g : MenuGraph α) (capacity : ℕ) (stack : List α) (dest : α) (src : Option α) :
    Option (ItemPtr α) × List α :=
  match src with
  | none => (none, stack)
  | some src =>
    if (g.items dest).length = 0 then (none, stack)
    else
      let pushFlag := decide (src ∉ stack)
      match if pushFlag then menuStackPush capacity stack src else some stack with
      | none => (none, stack)
      | some stack =>
        let srcIndex := menuStackNodeIndex stack src
        match if dest ∉ stack then menuStackPush capacity stack dest else some stack with
        | none => (none, if pushFlag then menuStackMultiPop stack 1 else stack)
        | some stack =>
          let destIndex := menuStackNodeIndex stack dest
          (some ⟨dest, landing g dest src⟩,
            if destIndex < srcIndex then
              if destIndex + 1 < stack.length then menuStackMultiPop stack (stack.length - destIndex - 1) else stack
            else stack)

/-- `MoveToParant`: the item returned, the array stored through its argument and the stack afterwards. -/
def moveToParant (g : MenuGraph α) (capacity : ℕ) (stack : List α) (src : Option α) :
    Option (ItemPtr α) × Option α × List α :=
  match src with
  | none => (none, none, stack)
  | some a =>
    if a ∉ stack then (none, none, stack)
    else if menuStackNodeIndex stack a = 0 then (some ⟨a, 0⟩, none, stack)
    else
      match stack[menuStackNodeIndex stack a - 1]? with
      | none => (none, none, stack)
      | some dest =>
        let (item, stack) := moveToChild g capacity stack dest (some a)
        (item, if item.isSome then some dest else none, stack)

end Defs

/-! ## What `MoveToChild` does -/

section Child

variable {α : Type*} [DecidableEq α] {g : MenuGraph α} {capacity : ℕ} {stack : List α} {dest src : α}

/-- The stack with the current menu on it. -/
def withSrc (stack : List α) (src : α) : List α := if src ∈ stack then stack else stack ++ [src]

theorem withSrc_nodup (src : α) (h : stack.Nodup) : (withSrc stack src).Nodup := by
  unfold withSrc
  split
  · exact h
  · next hsrc => exact h.append (List.nodup_singleton src) (by simpa using hsrc)

theorem take_idxOf_nodup {l : List α} (h : l.Nodup) (a : α) : (l.take (l.idxOf a + 1)).Nodup :=
  h.sublist (List.take_sublist _ l)

theorem getLast?_take_idxOf {l : List α} {a : α} (h : a ∈ l) : (l.take (l.idxOf a + 1)).getLast? = some a := by
  have hlt := List.idxOf_lt_length_of_mem h
  rw [List.getLast?_take, if_neg (Nat.succ_ne_zero _), Nat.add_sub_cancel, List.getElem?_eq_getElem hlt]
  simp

theorem idxOf_getLast {l : List α} {a : α} (h : l.Nodup) (hlast : l.getLast? = some a) : l.idxOf a + 1 = l.length := by
  obtain ⟨l', rfl⟩ := List.getLast?_eq_some_iff.mp hlast
  have ha : a ∉ l' := fun hm => (List.nodup_append.mp h).2.2 a hm a (by simp) rfl
  rw [List.idxOf_append_of_notMem ha]
  simp

theorem pop_to_dest {l : List α} (hnodup : l.Nodup) (htop : l.getLast? = some src) (hdest : dest ∈ l) :
    (if menuStackNodeIndex l dest < menuStackNodeIndex l src then
      if menuStackNodeIndex l dest + 1 < l.length then
        menuStackMultiPop l (l.length - menuStackNodeIndex l dest - 1)
      else l
    else l) = l.take (l.idxOf dest + 1) := by
  have hlt := List.idxOf_lt_length_of_mem hdest
  have hlast := idxOf_getLast hnodup htop
  unfold menuStackNodeIndex menuStackMultiPop
  split_ifs
  · congr 1
    omega
  · rw [List.take_of_length_le (by omega)]
  · rw [List.take_of_length_le (by omega)]

/-- Nothing is popped above an entry that was just pushed. -/
theorem pushed_not_lt {l : List α} (hdest : dest ∉ l) (hsrc : src ∈ l) :
    ¬ menuStackNodeIndex (l ++ [dest]) dest < menuStackNodeIndex l src := by
  have hlt := List.idxOf_lt_length_of_mem hsrc
  unfold menuStackNodeIndex
  rw [List.idxOf_append_of_notMem hdest]
  omega

theorem moveToChild_item {p : ItemPtr α} (h : (moveToChild g capacity stack dest (some src)).1 = some p) :
    p = ⟨dest, landing g dest src⟩ := by
  unfold moveToChild at h
  dsimp only at h
  split at h
  · cases h
  split at h
  · cases h
  split at h
  · cases h
  · exact (Option.some.inj h).symm

/-- **`MoveToChild`** from the menu on top fails and leaves the stack, or pushes the destination, or pops down to it; it
does not fail if both menus are on the stack and the destination has items. -/
theorem moveToChild_cases (g : MenuGraph α) (dest : α) (hnodup : stack.Nodup) (hlength : stack.length ≤ capacity)
    (htop : (withSrc stack src).getLast? = some src) :
    moveToChild g capacity stack dest (some src) = (none, stack) ∧ (g.items dest = [] ∨ dest ∉ stack ∨ src ∉ stack) ∨
      ∃ stack', moveToChild g capacity stack dest (some src) = (some ⟨dest, landing g dest src⟩, stack') ∧
        stack'.length ≤ capacity ∧
        (dest ∉ withSrc stack src ∧ stack' = withSrc stack src ++ [dest] ∨
          dest ∈ withSrc stack src ∧ stack' = (withSrc stack src).take ((withSrc stack src).idxOf dest + 1)) := by
  have hbase := withSrc_nodup src hnodup
  have hsrcmem : src ∈ withSrc stack src := List.mem_of_getLast? htop
  unfold moveToChild
  dsimp only
  by_cases hempty : (g.items dest).length = 0
  · exact Or.inl ⟨if_pos hempty, Or.inl (List.length_eq_zero_iff.mp hempty)⟩
  rw [if_neg hempty]
  by_cases hsrc : src ∈ stack
  · have hwith : withSrc stack src = stack := if_pos hsrc
    rw [hwith] at htop hbase ⊢
    simp only [hsrc, not_true_eq_false, decide_false, Bool.false_eq_true, if_false]
    by_cases hdest : dest ∈ stack
    · simp only [hdest, not_true_eq_false, if_false]
      refine Or.inr ⟨_, rfl, ?_, Or.inr ⟨trivial, pop_to_dest hbase htop hdest⟩⟩
      rw [pop_to_dest hbase htop hdest, List.length_take]
      omega
    · simp only [hdest, not_false_eq_true, if_true, menuStackPush]
      by_cases hfull : stack.length = capacity
      · simp only [hfull, if_true]
        exact Or.inl ⟨trivial, Or.inr (Or.inl trivial)⟩
      · simp only [hfull, if_false]
        rw [if_neg (pushed_not_lt hdest hsrc)]
        refine Or.inr ⟨_, rfl, ?_, Or.inl ⟨trivial, rfl⟩⟩
        rw [List.length_append, List.length_singleton]
        omega
  · have hwith : withSrc stack src = stack ++ [src] := if_neg hsrc
    rw [hwith] at htop hbase hsrcmem ⊢
    simp only [hsrc, not_false_eq_true, decide_true, if_true, menuStackPush]
    by_cases hfull : stack.length = capacity
    · simp only [hfull, if_true]
      exact Or.inl ⟨trivial, Or.inr (Or.inr trivial)⟩
    simp only [hfull, if_false]
    by_cases hdest : dest ∈ stack ++ [src]
    · simp only [hdest, not_true_eq_false, if_false]
      refine Or.inr ⟨_, rfl, ?_, Or.inr ⟨trivial, pop_to_dest hbase htop hdest⟩⟩
      rw [pop_to_dest hbase htop hdest, List.length_take, List.length_append, List.length_singleton]
      omega
    · simp only [hdest, not_false_eq_true, if_true]
      by_cases hfull' : (stack ++ [src]).length = capacity
      · simp only [hfull', if_true]
        left
        refine ⟨?_, Or.inr (Or.inr trivial)⟩
        simp [menuStackMultiPop]
      · simp only [hfull', if_false]
        rw [if_neg (pushed_not_lt hdest hsrcmem)]
        refine Or.inr ⟨_, rfl, ?_, Or.inl ⟨trivial, rfl⟩⟩
        simp only [List.length_append, List.length_singleton] at hfull' ⊢
        omega

/-- After a successful move the destination is on top. -/
theorem moved_top {stack' : List α} (hnodup : stack.Nodup)
    (h : dest ∉ withSrc stack src ∧ stack' = withSrc stack src ++ [dest] ∨
      dest ∈ withSrc stack src ∧ stack' = (withSrc stack src).take ((withSrc stack src).idxOf dest + 1)) :
    stack'.Nodup ∧ stack'.getLast? = some dest := by
  have hbase := withSrc_nodup src hnodup
  rcases h with ⟨hdest, rfl⟩ | ⟨hdest, rfl⟩
  · refine ⟨hbase.append (List.nodup_singleton dest) ?_, List.getLast?_concat⟩
    simpa using hdest
  · exact ⟨take_idxOf_nodup hbase dest, getLast?_take_idxOf hdest⟩

/-- The item on which a menu is entered leads back to where the move came from, if one does. -/
theorem landing_spec {item : MenuItem α} (hmem : item ∈ g.items dest) (hnext : item.next = some src) :
    ∃ i, (g.items dest)[landing g dest src]? = some i ∧ i.next = some src := by
  have hsome : ((g.items dest).findIdx? fun i => decide (i.next = some src)).isSome := by
    rw [List.findIdx?_isSome, List.any_eq_true]
    exact ⟨item, hmem, by simpa using hnext⟩
  obtain ⟨n, hn⟩ := Option.isSome_iff_exists.mp hsome
  obtain ⟨hlt, hp, -⟩ := List.findIdx?_eq_some_iff_getElem.mp hn
  refine ⟨(g.items dest)[n], ?_, by simpa using hp⟩
  rw [landing, hn, Option.getD_some, List.getElem?_eq_getElem hlt]

/-- **`MoveToParant`** from the menu on top: at the bottom of the stack it returns that menu without its array, above it
moves to the menu below. -/
theorem moveToParant_cases (hnodup : stack.Nodup) (hlength : stack.length ≤ capacity)
    (htop : stack.getLast? = some src) :
    stack = [src] ∧ moveToParant g capacity stack (some src) = (some ⟨src, 0⟩, none, stack) ∨
      ∃ base dest, stack = base ++ [dest, src] ∧
        (moveToParant g capacity stack (some src) = (none, none, stack) ∧ g.items dest = [] ∨
          moveToParant g capacity stack (some src) =
            (some ⟨dest, landing g dest src⟩, some dest, base ++ [dest])) := by
  obtain ⟨lower, hlower⟩ := List.getLast?_eq_some_iff.mp htop
  rcases List.eq_nil_or_concat lower with rfl | ⟨base, dest, rfl⟩
  · left
    rw [List.nil_append] at hlower
    subst hlower
    simp [moveToParant, menuStackNodeIndex]
  right
  have hstack : stack = base ++ [dest, src] := by simpa using hlower
  have hmem : src ∈ stack := List.mem_of_getLast? htop
  have hdest : dest ∈ stack := by simp [hstack]
  have hwith : withSrc stack src = stack := if_pos hmem
  have hindex : stack.idxOf src = base.length + 1 := by
    have hlast := idxOf_getLast hnodup htop
    rw [hstack] at hlast ⊢
    simp only [List.length_append, List.length_cons, List.length_nil] at hlast
    omega
  have hdestIndex : stack.idxOf dest = base.length := by
    rw [hstack] at hnodup ⊢
    have hnot : dest ∉ base := fun hm => (List.nodup_append.mp hnodup).2.2 dest hm dest (by simp) rfl
    rw [List.idxOf_append_of_notMem hnot]
    simp
  have hbelow : stack[base.length + 1 - 1]? = some dest := by simp [hstack]
  refine ⟨base, dest, hstack, ?_⟩
  simp only [moveToParant, menuStackNodeIndex, hmem, not_true_eq_false, if_false, hindex, Nat.succ_ne_zero, hbelow]
  rcases moveToChild_cases g dest hnodup hlength (hwith.symm ▸ htop) with
    ⟨hfail, hwhy⟩ | ⟨stack', hmove, -, hstack'⟩
  · rw [hfail]
    simp only [hdest, hmem, not_true_eq_false, or_false] at hwhy
    exact Or.inl ⟨rfl, hwhy⟩
  · rw [hmove]
    rw [hwith] at hstack'
    simp only [hdest, not_true_eq_false, false_and, true_and, false_or] at hstack'
    rw [hdestIndex, hstack] at hstack'
    have htake : (base ++ [dest, src]).take (base.length + 1) = base ++ [dest] := by
      rw [List.take_append, List.take_of_length_le (Nat.le_succ _)]
      simp
    rw [htake] at hstack'
    subst hstack'
    exact Or.inr rfl

end Child

/-! ## Sequences of moves -/

section Nav

variable {α : Type*} [DecidableEq α] (g : MenuGraph α) (capacity : ℕ)

/-- The stack, `PCurMenuArray` and `PCurItem`.  No code reads `entered`, the menu that was left and the menu that was
entered if the last call was a `MoveToChild` into a menu that was not on the stack. -/
structure Nav (α : Type*) where
  stack : List α
  curMenuArray : Option α
  curItem : ItemPtr α
  entered : Option (α × α)

/-- The calls that `SwitchPorcess` makes; `child index` with the cursor on that item of the current menu. -/
inductive NavCall where
  | child (index : ℕ)
  | parant
  | root

/-- The menu that an item of the current menu leads to through the default action. -/
def childOf (s : Nav α) (index : ℕ) : Option α :=
  s.curMenuArray.bind fun a => ((g.items a)[index]?).bind fun i =>
    match i.okAction with
    | some .moveToChild => i.next
    | _ => none

/-- A call: the item returned, the array that becomes the current one if it succeeds, and the stack. -/
def navCall (s : Nav α) (c : NavCall) : Option (ItemPtr α) × Option α × List α :=
  match c with
  | .child index =>
    match childOf g s index with
    | none => (none, none, s.stack)
    | some dest =>
      let (item, stack) := moveToChild g capacity s.stack dest s.curMenuArray
      (item, some dest, stack)
  | .parant => moveToParant g capacity s.stack s.curMenuArray
  -- `MoveToRoot` empties the stack
  | .root => (some ⟨g.root, 0⟩, some g.root, menuStackMultiPop s.stack s.stack.length)

/-- What `SwitchPorcess` does with the result. -/
def navStep (s : Nav α) (c : NavCall) : Nav α :=
  let (item, array, stack) := navCall g capacity s c
  match item with
  | none => { s with stack := stack, entered := none }
  | some p =>
    { stack := stack
      curMenuArray := array
      curItem := p
      entered :=
        match c, s.curMenuArray, array with
        | .child _, some prev, some dest => if dest ∈ s.stack then none else some (prev, dest)
        | _, _, _ => none }

/-- The current menu is on top of the stack; the stack is empty only at the root. -/
def OnTop (s : Nav α) : Prop :=
  s.stack = [] ∧ s.curMenuArray = some g.root ∨ ∃ a, s.curMenuArray = some a ∧ s.stack.getLast? = some a

/-- What a call owes. -/
structure NavKept (s : Nav α) (c : NavCall) : Prop where
  nodup : (navStep g capacity s c).stack.Nodup
  length : (navStep g capacity s c).stack.length ≤ capacity
  onTop : OnTop g (navStep g capacity s c)
  array : (navCall g capacity s c).1.isSome → (navCall g capacity s c).2.1.isSome
  failed : (navCall g capacity s c).1 = none → (navStep g capacity s c).stack = s.stack
  back : ∀ prev child, c = .parant → s.entered = some (prev, child) →
    (navCall g capacity s c).2.1 = some prev ∧ ∃ p item, (navCall g capacity s c).1 = some p ∧ p.array = prev ∧
      (g.items prev)[p.index]? = some item ∧ item.next = some child

/-- `MoveToParant` is not called from the menu at the bottom of the stack. -/
def NavOk (s : Nav α) (c : NavCall) : Prop :=
  match c with
  | .parant => s.stack = [] ∨ s.stack.head? ≠ s.curMenuArray
  | .child _ | .root => True

instance (s : Nav α) (c : NavCall) : Decidable (NavOk s c) :=
  match c with
  | .parant => inferInstanceAs (Decidable (_ ∨ _))
  | .child _ | .root => isTrue trivial

/-- Before any call. -/
def navStart : Nav α := ⟨[], some g.root, ⟨g.root, 0⟩, none⟩

/-- The invariant of the moves. -/
structure NavInv (s : Nav α) : Prop where
  nodup : s.stack.Nodup
  length : s.stack.length ≤ capacity
  onTop : OnTop g s
  entered : ∀ prev child, s.entered = some (prev, child) →
    (∃ item ∈ g.items prev, item.next = some child) ∧
      (s.stack = [child] ∨ ∃ base, s.stack = base ++ [prev, child])

variable {g capacity} {s : Nav α}

theorem OnTop.withSrc (h : OnTop g s) : ∃ a, s.curMenuArray = some a ∧ (withSrc s.stack a).getLast? = some a := by
  rcases h with ⟨hstack, hcur⟩ | ⟨a, hcur, htop⟩
  · exact ⟨g.root, hcur, by simp [hstack, Menu.withSrc]⟩
  · have hmem : a ∈ s.stack := List.mem_of_getLast? htop
    exact ⟨a, hcur, by rw [Menu.withSrc, if_pos hmem]; exact htop⟩

omit [DecidableEq α] in
theorem childOf_spec {index : ℕ} {a dest : α} (hcur : s.curMenuArray = some a) (h : childOf g s index = some dest) :
    ∃ item ∈ g.items a, item.next = some dest := by
  rw [childOf, hcur, Option.bind_some] at h
  obtain ⟨item, hitem, hnext⟩ := Option.bind_eq_some_iff.mp h
  refine ⟨item, List.mem_of_getElem? hitem, ?_⟩
  split at hnext
  · exact hnext
  · cases hnext

theorem NavInv.fails (h : NavInv g capacity s) {c : NavCall} (array : Option α)
    (hcall : navCall g capacity s c = (none, array, s.stack)) (hback : c = .parant → s.entered = none) :
    NavKept g capacity s c ∧ NavInv g capacity (navStep g capacity s c) := by
  have hstep : navStep g capacity s c = { s with entered := none } := by
    simp only [navStep, hcall]
  constructor
  · constructor
    · rw [hstep]; exact h.nodup
    · rw [hstep]; exact h.length
    · rw [hstep]; exact h.onTop
    · intro hsome
      simp [hcall] at hsome
    · intro _
      rw [hstep]
    · intro prev child hc hentered
      simp [hback hc] at hentered
  · rw [hstep]
    refine ⟨h.nodup, h.length, h.onTop, ?_⟩
    intro prev child hentered
    cases hentered

theorem navKept_of_move {c : NavCall} {p : ItemPtr α} {a : α} {stack' : List α}
    (hcall : navCall g capacity s c = (some p, some a, stack')) (hnodup : stack'.Nodup)
    (hlength : stack'.length ≤ capacity)
    (htop : stack' = [] ∧ a = g.root ∨ stack'.getLast? = some a)
    (hback : c = .parant → ∀ prev child, s.entered = some (prev, child) →
      a = prev ∧ p.array = prev ∧ ∃ item, (g.items prev)[p.index]? = some item ∧ item.next = some child) :
    NavKept g capacity s c := by
  have hstack : (navStep g capacity s c).stack = stack' := by
    simp only [navStep, hcall]
  have hcur : (navStep g capacity s c).curMenuArray = some a := by
    simp only [navStep, hcall]
  constructor
  · rw [hstack]
    exact hnodup
  · rw [hstack]
    exact hlength
  · unfold OnTop
    rw [hstack, hcur]
    rcases htop with ⟨hnil, rfl⟩ | hlast
    · exact Or.inl ⟨hnil, rfl⟩
    · exact Or.inr ⟨a, rfl, hlast⟩
  · intro _
    rw [hcall]
    rfl
  · intro hnone
    rw [hcall] at hnone
    cases hnone
  · intro prev child hc hentered
    obtain ⟨rfl, harray, item, hitem, hnext⟩ := hback hc prev child hentered
    rw [hcall]
    exact ⟨rfl, p, item, rfl, harray, hitem, hnext⟩

theorem NavInv.child (h : NavInv g capacity s) (index : ℕ) :
    NavKept g capacity s (.child index) ∧ NavInv g capacity (navStep g capacity s (.child index)) := by
  obtain ⟨a, hcur, htop⟩ := h.onTop.withSrc
  cases hchild : childOf g s index with
  | none =>
    refine h.fails none ?_ (fun hc => by cases hc)
    simp only [navCall, hchild]
  | some dest =>
    rcases moveToChild_cases g dest h.nodup h.length htop with
      ⟨hfail, -⟩ | ⟨stack', hmove, hlength, hstack'⟩
    · refine h.fails (some dest) ?_ (fun hc => by cases hc)
      simp only [navCall, hchild, hcur, hfail]
    · obtain ⟨hnodup, hlast⟩ := moved_top h.nodup hstack'
      have hcall : navCall g capacity s (.child index) = (some ⟨dest, landing g dest a⟩, some dest, stack') := by
        simp only [navCall, hchild, hcur, hmove]
      have hstep : navStep g capacity s (.child index) =
          ⟨stack', some dest, ⟨dest, landing g dest a⟩, if dest ∈ s.stack then none else some (a, dest)⟩ := by
        simp only [navStep, hcall, hcur]
      constructor
      · exact navKept_of_move hcall hnodup hlength (Or.inr hlast) (fun hc => by cases hc)
      · rw [hstep]
        refine ⟨hnodup, hlength, Or.inr ⟨dest, rfl, hlast⟩, ?_⟩
        intro prev child hentered
        dsimp only at hentered
        split_ifs at hentered with hdest
        obtain ⟨rfl, rfl⟩ := Prod.mk.inj (Option.some.inj hentered)
        refine ⟨childOf_spec hcur hchild, ?_⟩
        obtain ⟨base, hbase⟩ := List.getLast?_eq_some_iff.mp htop
        rcases hstack' with ⟨-, rfl⟩ | ⟨hmem, rfl⟩
        · exact Or.inr ⟨base, by simp [hbase]⟩
        · -- the menu itself, entered from the root while the stack is empty
          left
          have hself : dest = a := by
            unfold Menu.withSrc at hmem
            split_ifs at hmem with ha
            · exact absurd hmem hdest
            · simpa [hdest] using hmem
          subst hself
          have hempty : s.stack = [] := by
            rcases h.onTop with ⟨hnil, -⟩ | ⟨b, hb, hlast'⟩
            · exact hnil
            · rw [hcur] at hb
              obtain rfl := Option.some.inj hb
              exact absurd (List.mem_of_getLast? hlast') hdest
          simp [Menu.withSrc, hempty]

theorem NavInv.parant_empty (h : NavInv g capacity s) (hempty : s.stack = []) (hcur : s.curMenuArray = some g.root) :
    NavKept g capacity s .parant ∧ NavInv g capacity (navStep g capacity s .parant) := by
  refine h.fails none (by simp [navCall, moveToParant, hcur, hempty]) fun _ => ?_
  cases hentered : s.entered with
  | none => rfl
  | some e =>
    obtain ⟨-, hstack⟩ := h.entered e.1 e.2 hentered
    simp [hempty] at hstack

omit [DecidableEq α] in
/-- Above the bottom, the menu entered last is the current one, and the menu it was entered from lies below. -/
theorem NavInv.entered_below (h : NavInv g capacity s) {base : List α} {dest a prev child : α}
    (hstack : s.stack = base ++ [dest, a]) (he : s.entered = some (prev, child)) :
    prev = dest ∧ child = a ∧ ∃ item ∈ g.items dest, item.next = some a := by
  obtain ⟨hitem, hsingle | ⟨base', hbase'⟩⟩ := h.entered prev child he
  · rw [hstack] at hsingle
    have hlen := congrArg List.length hsingle
    simp at hlen
  · rw [hstack] at hbase'
    obtain ⟨-, hends⟩ := List.append_inj' hbase' rfl
    simp only [List.cons.injEq, and_true] at hends
    obtain ⟨rfl, rfl⟩ := hends
    exact ⟨rfl, rfl, hitem⟩

omit [DecidableEq α] in
/-- The current menu stands above the bottom, and nowhere else. -/
theorem NavInv.navOk_above (h : NavInv g capacity s) {base : List α} {dest a : α} (hcur : s.curMenuArray = some a)
    (hstack : s.stack = base ++ [dest, a]) : NavOk s .parant := by
  right
  rw [hcur, hstack]
  intro hhead
  have hnodup := h.nodup
  rw [hstack] at hnodup
  cases base with
  | nil => simp_all
  | cons b base => simp_all

theorem NavInv.parant_below (h : NavInv g capacity s) {base : List α} {dest a : α} (hcur : s.curMenuArray = some a)
    (hstack : s.stack = base ++ [dest, a])
    (hmove : moveToParant g capacity s.stack (some a) = (some ⟨dest, landing g dest a⟩, some dest, base ++ [dest])) :
    NavKept g capacity s .parant ∧ NavInv g capacity (navStep g capacity s .parant) := by
  have hcall : navCall g capacity s .parant = (some ⟨dest, landing g dest a⟩, some dest, base ++ [dest]) := by
    simp only [navCall, hcur, hmove]
  have hstep : navStep g capacity s .parant = ⟨base ++ [dest], some dest, ⟨dest, landing g dest a⟩, none⟩ := by
    simp only [navStep, hcall]
  have hsub : (base ++ [dest]).Sublist s.stack := by
    rw [hstack, show base ++ [dest, a] = (base ++ [dest]) ++ [a] by simp]
    exact List.sublist_append_left _ _
  have hnodup := h.nodup.sublist hsub
  have hlength := hsub.length_le.trans h.length
  have hlast : (base ++ [dest]).getLast? = some dest := List.getLast?_concat
  constructor
  · refine navKept_of_move hcall hnodup hlength (Or.inr hlast) fun _ prev child he => ?_
    obtain ⟨rfl, rfl, item, hmem, hnext⟩ := h.entered_below hstack he
    exact ⟨rfl, rfl, landing_spec hmem hnext⟩
  · rw [hstep]
    refine ⟨hnodup, hlength, Or.inr ⟨dest, rfl, hlast⟩, ?_⟩
    intro prev child he
    cases he

/-- A move back: it keeps what it owes exactly if it does not start at the bottom of the stack. -/
theorem NavInv.parant (h : NavInv g capacity s) :
    (NavKept g capacity s .parant ↔ NavOk s .parant) ∧
      (NavOk s .parant → NavInv g capacity (navStep g capacity s .parant)) := by
  rcases h.onTop with ⟨hempty, hcur⟩ | ⟨a, hcur, htop⟩
  · obtain ⟨hkept, hinv⟩ := h.parant_empty hempty hcur
    exact ⟨iff_of_true hkept (Or.inl hempty), fun _ => hinv⟩
  rcases moveToParant_cases (g := g) h.nodup h.length htop with ⟨hstack, hmove⟩ | ⟨base, dest, hstack, hmove⟩
  · have hcall : navCall g capacity s .parant = (some ⟨a, 0⟩, none, s.stack) := by
      simp only [navCall, hcur, hmove]
    have hnot : ¬ NavOk s .parant := by
      simp [NavOk, hcur, hstack]
    refine ⟨iff_of_false (fun hkept => ?_) hnot, fun hok => absurd hok hnot⟩
    have harray := hkept.array
    simp [hcall] at harray
  have hok := h.navOk_above hcur hstack
  suffices hboth : NavKept g capacity s .parant ∧ NavInv g capacity (navStep g capacity s .parant) from
    ⟨iff_of_true hboth.1 hok, fun _ => hboth.2⟩
  rcases hmove with ⟨hmove, hitems⟩ | hmove
  · -- the menu below has no item, so that nothing was entered from it
    refine h.fails none (by simp only [navCall, hcur, hmove]) fun _ => ?_
    cases he : s.entered with
    | none => rfl
    | some e =>
      obtain ⟨-, -, item, hmem, -⟩ := h.entered_below hstack he
      simp [hitems] at hmem
  · exact h.parant_below hcur hstack hmove

theorem nav_root (s : Nav α) : NavKept g capacity s .root ∧ NavInv g capacity (navStep g capacity s .root) := by
  have hcall : navCall g capacity s .root = (some ⟨g.root, 0⟩, some g.root, []) := by
    simp [navCall, menuStackMultiPop]
  have hstep : navStep g capacity s .root = ⟨[], some g.root, ⟨g.root, 0⟩, none⟩ := by
    simp only [navStep, hcall]
  constructor
  · exact navKept_of_move hcall List.nodup_nil (Nat.zero_le capacity) (Or.inl ⟨rfl, rfl⟩) (fun hc => by cases hc)
  · rw [hstep]
    refine ⟨List.nodup_nil, Nat.zero_le capacity, Or.inl ⟨rfl, rfl⟩, ?_⟩
    intro prev child he
    cases he

/-- **Step lemma**: a call keeps what it owes exactly on the condition, and then the invariant. -/
theorem NavInv.step (h : NavInv g capacity s) (c : NavCall) :
    (NavKept g capacity s c ↔ NavOk s c) ∧ (NavOk s c → NavInv g capacity (navStep g capacity s c)) := by
  cases c with
  | child index =>
    obtain ⟨hkept, hinv⟩ := h.child index
    exact ⟨iff_of_true hkept trivial, fun _ => hinv⟩
  | parant => exact h.parant
  | root =>
    obtain ⟨hkept, hinv⟩ : NavKept g capacity s .root ∧ NavInv g capacity (navStep g capacity s .root) := nav_root s
    exact ⟨iff_of_true hkept trivial, fun _ => hinv⟩

omit [DecidableEq α] in
theorem navInv_start : NavInv g capacity (navStart g) := by
  refine ⟨List.nodup_nil, Nat.zero_le capacity, Or.inl ⟨rfl, rfl⟩, ?_⟩
  intro prev child he
  cases he

/-- **Every run**: all calls keep what they owe exactly when none of them is `MoveToParant` at the bottom of the
stack. -/
theorem nav_run_iff (g : MenuGraph α) (capacity : ℕ) (calls : List NavCall) :
    AllSteps (navStep g capacity) (NavKept g capacity) (navStart g) calls ↔
      AllSteps (navStep g capacity) NavOk (navStart g) calls :=
  allSteps_iff_of_invariant (fun _ c hinv => hinv.step c) navInv_start calls

/-- `MENUARRAY_STACKCAPACITY`. -/
def menuarrayStackCapacity : ℕ := 40

/-- Two menus, of which the root has an item back as well. -/
def twoMenus : MenuGraph Bool where
  items a := [⟨none, none, none, 1, none⟩, ⟨some .moveToChild, none, none, 1, some !a⟩]
  root := false

/-- Down to the second menu, back, and back again from the root, which is then the bottom of the stack. -/
def backTwice : List NavCall := [.child 1, .parant, .parant]

theorem back_from_root :
    ¬ AllSteps (navStep twoMenus menuarrayStackCapacity) (NavKept twoMenus menuarrayStackCapacity) (navStart twoMenus)
      backTwice := by
  intro h
  have hok : AllSteps (navStep twoMenus menuarrayStackCapacity) NavOk (navStart twoMenus) backTwice :=
    (allSteps_iff_of_invariant (fun _ c hinv => hinv.step c) navInv_start _).mp h
  revert hok
  decide

end Nav

end Cxsw.Menu
