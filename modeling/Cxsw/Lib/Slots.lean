import Mathlib

/-!
# Cxsw.Lib.Slots — slots that are booked before they are free

A ledger has a time for each of a number of slots.  A booking is for the slot that is free first, from its time `a` on,
and puts the time into the ledger at which it is free again.  The slots are taken later, in the order of the bookings.

* `Booked`: bookings, one after the other.
* `Covers`: the ledger with the bookings up to now has, for every time from now on, as many slots that are not free as
  there are.
* `Covers.room`: whoever comes at its time or later finds a slot.
-/

namespace Cxsw.Slots

variable {α : Type*} [LinearOrder α] {ledger ledger' ledger'' rest used : List α} {a now now' : α} {free : Option α}
  {items items' : List (α × Option α)}

/-- Bookings: the time of the slot, and when it is free again, or `none` where it is not used. -/
inductive Booked : List α → List (α × Option α) → List α → Prop
  | nil {ledger ledger' : List α} (h : ledger.Perm ledger') : Booked ledger [] ledger'
  | cons {ledger rest ledger' : List α} {a : α} {free : Option α} {items : List (α × Option α)}
      (h : ledger.Perm (a :: rest))
      (hmin : ∀ b ∈ rest, a ≤ b) (hitems : Booked (free.getD a :: rest) items ledger') :
      Booked ledger ((a, free) :: items) ledger'

theorem Booked.refl (ledger : List α) : Booked ledger [] ledger := .nil (List.Perm.refl _)

theorem Booked.of_perm (h : Booked ledger items ledger')
    (hp : ledger''.Perm ledger) : Booked ledger'' items ledger' := by
  cases h with
  | nil h => exact .nil (hp.trans h)
  | cons h hmin hitems => exact .cons (hp.trans h) hmin hitems

theorem Booked.append (h : Booked ledger items ledger') (h' : Booked ledger' items' ledger'') :
    Booked ledger (items ++ items') ledger'' := by
  induction h with
  | nil hp => exact h'.of_perm hp
  | cons hp hmin _ ih => exact .cons hp hmin (ih h')

/-- From `now` on, no more slots are used than the ledger has. -/
def Covers (now : α) (ledger used : List α) : Prop :=
  ∀ t, now ≤ t → used.countP (fun b => t < b) ≤ ledger.countP (fun b => t < b)

theorem Covers.nil (now : α) (ledger : List α) : Covers now ledger [] := fun _ _ => Nat.zero_le _

theorem Covers.later (h : Covers now ledger used) (hle : now ≤ now') : Covers now' ledger used :=
  fun t ht => h t (hle.trans ht)

theorem Covers.sublist (h : Covers now ledger used) {used' : List α}
    (hs : used'.Sublist used) : Covers now ledger used' :=
  fun t ht => (hs.countP_le).trans (h t ht)

/-- **There is room** for who comes at its time, when those that should be free are. -/
theorem Covers.room (h : Covers now ledger used) (hp : ledger.Perm (a :: rest)) (ha : a ≤ now)
    (hfree : ∀ b ∈ used, now < b) : used.length < ledger.length := by
  have hused : used.countP (fun b => now < b) = used.length :=
    List.countP_eq_length.mpr fun b hb => decide_eq_true (hfree b hb)
  have hle := h now le_rfl
  rw [hused, hp.countP_eq, List.countP_cons_of_neg (by simpa using ha)] at hle
  rw [hp.length_eq, List.length_cons]
  exact Nat.lt_succ_of_le (hle.trans List.countP_le_length)

/-- The slot is taken. -/
theorem Covers.take (h : Covers now ledger used) (hp : ledger.Perm (a :: rest)) (ha : a ≤ now) :
    Covers now (free.getD a :: rest) (free.toList ++ used) := by
  intro t ht
  have hle := h t ht
  rw [hp.countP_eq, List.countP_cons_of_neg (by simpa using ha.trans ht)] at hle
  cases free with
  | none =>
    rw [Option.getD_none, List.countP_cons_of_neg (by simpa using ha.trans ht)]
    exact hle
  | some c =>
    rw [Option.getD_some, Option.toList_some, List.singleton_append, List.countP_cons, List.countP_cons]
    omega

end Cxsw.Slots
