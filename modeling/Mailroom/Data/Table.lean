/-! Tables: values under keys, in the order in which the keys were first put. Putting a key again
keeps its place. -/

namespace Mailroom

/-- Values under keys, each key once when the table was built by `put`. -/
structure Table (κ α : Type) where
  entries : List (κ × α)
deriving Repr, BEq, DecidableEq

namespace Table

variable {κ α : Type}

/-- The table without entries. -/
def empty : Table κ α := ⟨[]⟩

instance : Inhabited (Table κ α) := ⟨empty⟩

/-- The keys, in order. -/
def keys (t : Table κ α) : List κ := t.entries.map Prod.fst

/-- The values, in the order of their keys. -/
def values (t : Table κ α) : List α := t.entries.map Prod.snd

/-- How many entries there are. -/
def size (t : Table κ α) : Nat := t.entries.length

/-- The same keys with other values. -/
def map {β : Type} (f : α → β) (t : Table κ α) : Table κ β :=
  ⟨t.entries.map fun entry => (entry.1, f entry.2)⟩

variable [DecidableEq κ]

/-- The value under a key. -/
def get? (t : Table κ α) (key : κ) : Option α := t.entries.lookup key

def has (t : Table κ α) (key : κ) : Bool := (t.get? key).isSome

/-- The entries with one put: in its place if the key is there, else at the end. -/
def putEntry (key : κ) (value : α) : List (κ × α) → List (κ × α)
  | [] => [(key, value)]
  | entry :: rest =>
    if entry.1 = key then (key, value) :: rest else entry :: putEntry key value rest

def put (t : Table κ α) (key : κ) (value : α) : Table κ α := ⟨putEntry key value t.entries⟩

def remove (t : Table κ α) (key : κ) : Table κ α :=
  ⟨t.entries.filter fun entry => entry.1 != key⟩

/-- The table with the value under the key changed, if the key is there. -/
def modify (t : Table κ α) (key : κ) (f : α → α) : Table κ α :=
  ⟨t.entries.map fun entry => if entry.1 = key then (entry.1, f entry.2) else entry⟩

/-- The table of entries put one after the other. -/
def ofList (entries : List (κ × α)) : Table κ α :=
  entries.foldl (fun t entry => t.put entry.1 entry.2) empty

theorem get?_put_self (t : Table κ α) (key : κ) (value : α) :
    (t.put key value).get? key = some value := by
  obtain ⟨entries⟩ := t
  simp only [put, get?]
  induction entries with
  | nil => simp [putEntry]
  | cons entry rest ih =>
    obtain ⟨k, v⟩ := entry
    by_cases h : k = key
    · simp [putEntry, h]
    · simp only [putEntry, h, if_false, List.lookup_cons, beq_eq_false_iff_ne.mpr (Ne.symm h), ih]

theorem get?_put_of_ne (t : Table κ α) {key other : κ} (value : α) (h : other ≠ key) :
    (t.put key value).get? other = t.get? other := by
  obtain ⟨entries⟩ := t
  simp only [put, get?]
  induction entries with
  | nil => simp [putEntry, List.lookup_cons, beq_eq_false_iff_ne.mpr h]
  | cons entry rest ih =>
    obtain ⟨k, v⟩ := entry
    by_cases hk : k = key
    · subst hk
      simp [putEntry, List.lookup_cons, beq_eq_false_iff_ne.mpr h]
    · simp only [putEntry, hk, if_false, List.lookup_cons, ih]

end Table

end Mailroom
