import Mailroom.Label.Rebuild

/-! Labels as data: tags, nodes with what they are linked to, and trees of the user's labels. -/

namespace Mailroom.Label

def Tag.toValue (t : Tag) : Value := .arr [.str t.id, .str t.name]

/-- The tag that data describes. -/
def Tag.ofValue (v : Value) : Tag := ⟨(v.textAt? "id").getD "", (v.textAt? "name").getD ""⟩

namespace Directory

/-- The id of the node above, if there is one. -/
def parentId? (d : Directory) (r : NodeRef) : Option String :=
  (d.node r).parent.map fun p => (d.node p).id

def nodeValue (d : Directory) (r : NodeRef) : Value :=
  let n := d.node r
  .obj [("id", .str n.id), ("name", .str n.name), ("kind", .str n.kind.name),
    ("parent", .ofText? (d.parentId? r)), ("evicted", .bool n.evicted),
    ("children", .arr (n.children.entries.map fun entry =>
      .arr [.str entry.1, .str (d.node entry.2).id])),
    ("proxyChildren", .ofTexts n.shown.keys)]

mutual

/-- A branch of the tree as data. -/
def branchValue (d : Directory) : Branch → Value
  | .mk key r below =>
    .obj [("segment", .str key), ("id", .str (d.node r).id), ("name", .str (d.node r).name),
      ("parent", .ofText? (d.parentId? r)), ("children", .arr (branchValues d below))]

/-- Branches of the tree as data. -/
def branchValues (d : Directory) : List Branch → List Value
  | [] => []
  | b :: rest => branchValue d b :: branchValues d rest

end

def treeValue (d : Directory) : Value := .arr (branchValues d d.branches)

end Directory

end Mailroom.Label
