/-! Runs of a list: the pieces of a bounded length that make it up, and the items between two
positions. -/

namespace Mailroom.Runs

variable {α : Type}

/-- The list cut into pieces of `size`, the last one possibly shorter. Fuel is the number of
items. -/
def cut (size : Nat) : Nat → List α → List (List α)
  | 0, _ => []
  | fuel + 1, items =>
    if items.isEmpty then [] else items.take size :: cut size fuel (items.drop size)

/-- The list cut into pieces of `size`; every piece takes at least one item. -/
def chunks (size : Nat) (items : List α) : List (List α) :=
  cut (max size 1) items.length items

/-- The whole part of a rational number, toward zero. -/
def truncate (r : Rat) : Int := if r < 0 then -(-r).floor else r.floor

/-- The lesser of two rational numbers. -/
def lesser (r s : Rat) : Rat := if s < r then s else r

/-- A position in a list of a length; a negative one counts from the end. -/
def position (length : Nat) (r : Rat) : Nat :=
  let n := truncate r
  if n < 0 then (n + length).toNat else min n.toNat length

/-- The items from one position up to another. -/
def slice (items : List α) (start stop : Rat) : List α :=
  (items.take (position items.length stop)).drop (position items.length start)

theorem flatten_cut (size : Nat) (h : 0 < size) (fuel : Nat) (items : List α)
    (hf : items.length ≤ fuel) : (cut size fuel items).flatten = items := by
  induction fuel generalizing items with
  | zero =>
    have : items = [] := List.eq_nil_of_length_eq_zero (by omega)
    simp [cut, this]
  | succ fuel ih =>
    cases items with
    | nil => simp [cut]
    | cons a rest =>
      have : ((a :: rest).drop size).length ≤ fuel := by
        simp only [List.length_drop, List.length_cons] at *
        omega
      simp [cut, ih _ this]

/-- The pieces make up the list. -/
theorem flatten_chunks (size : Nat) (items : List α) : (chunks size items).flatten = items :=
  flatten_cut _ (by omega) _ _ (Nat.le_refl _)

end Mailroom.Runs
