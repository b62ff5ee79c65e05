import Mailroom.Data.Table
import Mailroom.Failure

/-! The registry: entries found by id and by name. Entries are known by handles and carry their
current id and name themselves, so an entry may be renamed while it is registered; it is then
still found under the name it was registered with, until it is set again. Setting an entry drops
whatever its id or its name stood for before. -/

namespace Mailroom.Label

/-- What a registry needs to know of an entry. -/
structure Tag where
  id : String
  name : String
deriving DecidableEq, Repr

/-- Handles of entries, by id and by name. -/
structure Registry (κ : Type) where
  byId : Table String κ
  byName : Table String κ
deriving Repr, DecidableEq

namespace Registry

variable {κ : Type}

/-- The registry without entries. -/
def empty : Registry κ := ⟨.empty, .empty⟩

instance : Inhabited (Registry κ) := ⟨empty⟩

/-- How many entries are found by id. -/
def size (r : Registry κ) : Nat := r.byId.size

/-- The entries, in the order of their ids' registration. -/
def nodes (r : Registry κ) : List κ := r.byId.values

def getById (r : Registry κ) (id : String) : Except Failure κ :=
  match r.byId.get? id with
  | some k => .ok k
  | none => .error (.notFound ("label id \"" ++ id ++ "\""))

def getByName (r : Registry κ) (name : String) : Except Failure κ :=
  match r.byName.get? name with
  | some k => .ok k
  | none => .error (.notFound ("label \"" ++ name ++ "\""))

/-- Whether an entry is found by the id. -/
def hasId (r : Registry κ) (id : String) : Bool := r.byId.has id

/-- Whether an entry is found by the name. -/
def hasName (r : Registry κ) (name : String) : Bool := r.byName.has name

variable [DecidableEq κ] (tag : κ → Tag)

/-- The registry without the name of an entry: the one it has, or else those it is found under. -/
def unlinkName (r : Registry κ) (k : κ) : Registry κ :=
  if r.byName.get? (tag k).name = some k then { r with byName := r.byName.remove (tag k).name }
  else { r with byName := ⟨r.byName.entries.filter fun entry => entry.2 != k⟩ }

/-- The registry with an entry under its id and its name. The former holder of the id loses its
name, the former holder of the name its id. -/
def set (r : Registry κ) (k : κ) : Registry κ :=
  let freed := match r.byId.get? (tag k).id with
    | some former => r.unlinkName tag former
    | none => r
  let byId := match freed.byName.get? (tag k).name with
    | some former => freed.byId.remove (tag former).id
    | none => freed.byId
  ⟨byId.put (tag k).id k, freed.byName.put (tag k).name k⟩

/-- The registry without an entry's id and name. -/
def pop (r : Registry κ) (k : κ) : Registry κ :=
  unlinkName tag { r with byId := r.byId.remove (tag k).id } k

/-- The entry with an id, and the registry without it. -/
def popById (r : Registry κ) (id : String) : Except Failure (κ × Registry κ) := do
  let k ← r.getById id
  return (k, r.pop tag k)

/-- The entry with a name, and the registry without it. -/
def popByName (r : Registry κ) (name : String) : Except Failure (κ × Registry κ) := do
  let k ← r.getByName name
  return (k, r.pop tag k)

end Registry

end Mailroom.Label
