import Mailroom.Remote.LabelRecord
import Mailroom.Label.Fixed
import Mailroom.Text.Split

/-! Loaded labels: what the service said of a label when it was last asked. The labels that every
mailbox has go by their display names. -/

namespace Mailroom.Label

/-- A label with its counts and looks. -/
structure Entity where
  kind : Kind
  record : Remote.LabelRecord
deriving DecidableEq, Repr

namespace Entity

/-- The id of a label; it never changes. -/
def id (e : Entity) : String := e.record.id

/-- The name that a label is shown under. -/
def name (e : Entity) : String := e.record.name

/-- The name that a label of a kind is shown under. -/
def displayName (kind : Kind) (id remoteName : String) : String :=
  match kind with
  | .category => ((Category.ofId? id).map Category.name).getD remoteName
  | .system => ((System.ofId? id).map System.name).getD remoteName
  | .user => remoteName

def ofRecord (kind : Kind) (r : Remote.LabelRecord) : Entity :=
  ⟨kind, { r with name := displayName kind r.id r.name }⟩

/-- The label with what the service says now. -/
def update (e : Entity) (r : Remote.LabelRecord) : Entity :=
  ⟨e.kind, { r with id := e.id, name := displayName e.kind e.id r.name }⟩

/-- Whether a label is above another by name, or is it. -/
def covers (e other : Entity) : Bool :=
  other.id == e.id || Text.startsWith other.name (e.name ++ "/")

end Entity

end Mailroom.Label
