import Mailroom.Label.Fixed
import Mailroom.Label.Registry
import Mailroom.Text.Split

/-! The directory: the nodes of all labels a mailbox knows of, the tree of the user's labels, the
registry of the current nodes and the count of refreshes. A node is known by a reference that
never changes; nodes are only added. Names of labels are paths: below a label hang the labels
whose names go on from its own behind a slash, under what remains of their names. -/

namespace Mailroom.Label

/-- A reference to a node. -/
structure NodeRef where
  index : Nat
deriving DecidableEq, Repr, Inhabited

/-- A reference to a loaded label. -/
structure EntityRef where
  index : Nat
deriving DecidableEq, Repr, Inhabited

/-- A label's place in the directory. The children are those of the last rebuild; what is shown
of them to callers is kept beside them. -/
structure Node where
  id : String
  name : String
  kind : Kind
  parent : Option NodeRef := none
  children : Table String NodeRef := .empty
  shown : Table String NodeRef := .empty
  /-- The label as last loaded, with the count of refreshes at that time. -/
  cached : Option (EntityRef × Nat) := none
  evicted : Bool := false
deriving Repr, DecidableEq, Inhabited

/-- The nodes of all labels. -/
structure Directory where
  nodes : Array Node := #[]
  /-- The labels that every rebuild registers first. -/
  fixed : List NodeRef := []
  roots : Table String NodeRef := .empty
  shown : Table String NodeRef := .empty
  registry : Registry NodeRef := .empty
  generation : Nat := 0
deriving Repr, DecidableEq, Inhabited

namespace Directory

/-- The node that a reference stands for. -/
def node (d : Directory) (r : NodeRef) : Node := (d.nodes[r.index]?).getD default

def modifyNode (d : Directory) (r : NodeRef) (f : Node → Node) : Directory :=
  { d with nodes := d.nodes.modify r.index f }

/-- The id and name of a node. -/
def tag (d : Directory) (r : NodeRef) : Tag := ⟨(d.node r).id, (d.node r).name⟩

def category (c : Category) : NodeRef := ⟨Category.all.idxOf c⟩

def system (s : System) : NodeRef := ⟨Category.all.length + System.all.idxOf s⟩

/-- The node of the category that is called so in small letters. -/
def categoryNamed? (name : String) : Option NodeRef :=
  (Category.all.find? fun c => Text.lowerAscii c.name == name).map category

/-- The node of the system label that is called so in small letters. -/
def systemNamed? (name : String) : Option NodeRef :=
  (System.all.find? fun l => Text.lowerAscii l.name == name).map system

/-- The nodes of the labels that every mailbox has. -/
def fixedNodes : List Node :=
  Category.all.map (fun c => { id := c.id, name := c.name, kind := .category })
    ++ System.all.map (fun s => { id := s.id, name := s.name, kind := .system })

def fixedRegistry (d : Directory) : Registry NodeRef :=
  d.fixed.foldl (fun r k => r.set d.tag k) .empty

/-- The directory of a mailbox before any refresh. -/
def initial : Directory :=
  let nodes := fixedNodes.toArray
  let d : Directory := { nodes, fixed := (List.range nodes.size).map NodeRef.mk }
  { d with registry := d.fixedRegistry }

/-- What is known of a node's label: it was loaded since the last refresh, or it has to be loaded
and is then kept under a count of refreshes. -/
inductive Standing
  | loaded (entity : EntityRef)
  | missing (generation : Nat)
deriving DecidableEq, Repr

/-- What is known of the label of a node; an evicted node has none. -/
def standing (d : Directory) (r : NodeRef) : Except Failure Standing :=
  let n := d.node r
  if n.evicted then .error (.notFound ("label \"" ++ n.name ++ "\" (" ++ n.id ++ ")"))
  else match n.cached with
    | some (e, g) => .ok (if g = d.generation then .loaded e else .missing d.generation)
    | none => .ok (.missing d.generation)

/-- The directory with a label kept for a node, as one of the given count of refreshes. -/
def keep (d : Directory) (r : NodeRef) (e : EntityRef) (generation : Nat) : Directory :=
  d.modifyNode r fun n => { n with cached := some (e, generation) }

/-- A level of the tree: what is shown below a node, or at the top. -/
def level (d : Directory) : Option NodeRef → Table String NodeRef
  | some r => (d.node r).shown
  | none => d.shown

/-- The cuts of a path after some of its segments, the longest first part first: the part in
front, and the segments behind. -/
def cuts (segments : List String) : List (String × List String) :=
  ((List.range' 1 (segments.length - 1)).reverse).map fun n =>
    ("/".intercalate (segments.take n), segments.drop n)

/-- The node at a path below a level. A key may span several segments; the longest key that
begins the path is followed. Each step leaves fewer segments. -/
def resolveFrom (d : Directory) : Nat → Table String NodeRef → List String →
    Except Failure NodeRef
  | 0, _, segments => .error (.notFound ("label path \"" ++ "/".intercalate segments ++ "\""))
  | fuel + 1, entries, segments =>
    let path := "/".intercalate segments
    match entries.get? path with
    | some r => .ok r
    | none =>
      let next := (cuts segments).findSome? fun cut =>
        (entries.get? cut.1).map fun r => (r, cut.2)
      match next with
      | some (r, rest) => d.resolveFrom fuel (d.node r).shown rest
      | none => .error (.notFound ("label path \"" ++ path ++ "\""))

/-- The node at a path below a node, or below the top. -/
def resolve (d : Directory) (below : Option NodeRef) (path : String) : Except Failure NodeRef :=
  let segments := Text.split '/' path
  d.resolveFrom segments.length (d.level below) segments

/-- A node under its key, with the tree below it. -/
inductive Branch
  | mk (key : String) (node : NodeRef) (below : List Branch)

/-- The branches of a level; fuel bounds the depth. -/
def branchesFrom (d : Directory) : Nat → Table String NodeRef → List Branch
  | 0, _ => []
  | fuel + 1, entries =>
    entries.entries.map fun entry =>
      .mk entry.1 entry.2 (d.branchesFrom fuel (d.node entry.2).shown)

/-- The tree of the user's labels. -/
def branches (d : Directory) : List Branch := d.branchesFrom (d.nodes.size + 1) d.shown

mutual

/-- One line for each label of a branch, indented by its depth. -/
def Branch.outline (indent : String) : Branch → List String
  | .mk key _ below => (indent ++ key) :: outlines (indent ++ "  ") below

/-- One line for each label of some branches. -/
def outlines (indent : String) : List Branch → List String
  | [] => []
  | b :: rest => b.outline indent ++ outlines indent rest

end

/-- One line for each of the user's labels, indented by its depth. -/
def outline (d : Directory) : List String := outlines "" d.branches

end Directory

end Mailroom.Label
