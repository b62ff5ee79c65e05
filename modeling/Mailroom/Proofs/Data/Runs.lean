import Mathlib.Algebra.Order.Floor.Ring
import Mathlib.Data.Rat.Floor
import Mailroom.Data.Runs

/-! Positions and slices at whole numbers: a slice from a position on is what remains of the list
there, up to the whole part of its length. Pieces of a list are not empty and not longer than
asked. -/

namespace Mailroom.Runs

variable {α : Type}

theorem position_natCast_add (length k : Nat) {r : Rat} (hr : 0 ≤ r) :
    position length ((k : Rat) + r) = min (k + r.floor.toNat) length := by
  have hsum : ¬((k : Rat) + r < 0) := not_lt.mpr (by positivity)
  have hfloor : 0 ≤ r.floor := Rat.le_floor_iff.mpr (by simpa using hr)
  have hadd : ((k : Rat) + r).floor = (k : Int) + r.floor := Int.floor_natCast_add k r
  rw [position, truncate, if_neg hsum, hadd]
  rw [if_neg (by omega)]
  congr 1
  omega

theorem position_natCast (length k : Nat) : position length (k : Rat) = min k length := by
  have h := position_natCast_add length k (le_refl 0)
  rwa [Rat.add_zero, show (Rat.floor 0).toNat = 0 from rfl, Nat.add_zero] at h

/-- A slice from a position in the list on. -/
theorem slice_natCast_add (items : List α) (k : Nat) {r : Rat} (hr : 0 ≤ r) :
    slice items (k : Rat) ((k : Rat) + r) = (items.take (k + r.floor.toNat)).drop k := by
  rw [slice, position_natCast_add _ _ hr, position_natCast, ← List.take_eq_take_min]
  rcases Nat.le_total k items.length with hk | hk
  · rw [Nat.min_eq_left hk]
  · have hlength : (items.take (k + r.floor.toNat)).length ≤ items.length :=
      List.length_take_le' ..
    rw [Nat.min_eq_right hk, List.drop_eq_nil_of_le hlength,
      List.drop_eq_nil_of_le (hlength.trans hk)]

theorem slice_zero_natCast (items : List α) (n : Nat) : slice items 0 (n : Rat) = items.take n := by
  have hzero : position items.length 0 = 0 := by simpa using position_natCast items.length 0
  rw [slice, hzero, position_natCast, ← List.take_eq_take_min, List.drop_zero]

theorem lesser_natCast (a b : Nat) : lesser (a : Rat) (b : Rat) = ((min a b : Nat) : Rat) := by
  rw [lesser]
  split
  case isTrue h =>
    rw [Nat.min_eq_right]
    exact_mod_cast h.le
  case isFalse h =>
    rw [Nat.min_eq_left]
    exact_mod_cast not_lt.mp h

theorem mem_cut {size : Nat} (hsize : 0 < size) {piece : List α} {fuel : Nat} {items : List α}
    (h : piece ∈ cut size fuel items) : piece ≠ [] ∧ piece.length ≤ size := by
  induction fuel generalizing items with
  | zero => simp [cut] at h
  | succ fuel ih =>
    cases items with
    | nil => simp [cut] at h
    | cons a rest =>
      simp only [cut, List.isEmpty_cons, Bool.false_eq_true, if_false, List.mem_cons] at h
      rcases h with rfl | h
      · exact ⟨by simp [hsize.ne'], List.length_take_le ..⟩
      · exact ih h

theorem mem_chunks {size : Nat} (hsize : 0 < size) {piece items : List α}
    (h : piece ∈ chunks size items) : piece ≠ [] ∧ piece.length ≤ size := by
  rw [chunks, Nat.max_eq_left hsize] at h
  exact mem_cut hsize h

theorem length_cut {size : Nat} (hsize : 0 < size) {fuel : Nat} {items : List α}
    (hfuel : items.length ≤ fuel) :
    (cut size fuel items).length = (items.length + (size - 1)) / size := by
  induction fuel generalizing items with
  | zero =>
    rw [Nat.le_zero.mp hfuel, Nat.zero_add, Nat.div_eq_of_lt (Nat.sub_one_lt hsize.ne')]
    rfl
  | succ fuel ih =>
    cases items with
    | nil => simp [cut, Nat.div_eq_of_lt (Nat.sub_one_lt hsize.ne')]
    | cons a rest =>
      have hrest : ((a :: rest).drop size).length ≤ fuel := by
        simp only [List.length_drop, List.length_cons] at *
        omega
      simp only [cut, List.isEmpty_cons, Bool.false_eq_true, if_false, List.length_cons, ih hrest,
        List.length_drop]
      -- One piece is taken off: all that is there, or a whole one.
      rcases Nat.lt_or_ge rest.length size with hlast | hmore
      · rw [Nat.sub_eq_zero_of_le hlast, Nat.zero_add, Nat.div_eq_of_lt (Nat.sub_one_lt hsize.ne'),
          show rest.length + 1 + (size - 1) = rest.length + size by omega,
          Nat.add_div_right _ hsize, Nat.div_eq_of_lt hlast]
      · rw [show rest.length + 1 + (size - 1) = rest.length + 1 - size + (size - 1) + size by omega,
          Nat.add_div_right _ hsize]

/-- There are as many pieces as it takes, the last one rounded up. -/
theorem length_chunks {size : Nat} (hsize : 0 < size) (items : List α) :
    (chunks size items).length = (items.length + (size - 1)) / size := by
  rw [chunks, Nat.max_eq_left hsize]
  exact length_cut hsize le_rfl

end Mailroom.Runs
