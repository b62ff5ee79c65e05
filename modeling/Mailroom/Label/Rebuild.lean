import Mailroom.Label.Directory

/-! Rebuilding the tree from a flat listing of labels. A label that is known by its id keeps its
node, whatever its new name and place; the others get new nodes. Nodes whose labels are no longer
listed are evicted: taken out of the tree and left without parent and children. -/

namespace Mailroom.Label

/-- A rebuild under way: the nodes, the registry so far and the nodes that were made. -/
structure Rebuild where
  directory : Directory
  next : Registry NodeRef
  created : List NodeRef := []

namespace Rebuild

def depth (path : String) : Nat := (Text.split '/' path).length

/-- What remains of a label's name behind the name of the label above it. -/
def restOf (above : String) (name : String) : String :=
  if above.isEmpty then name else String.ofList (name.toList.drop (above.toList.length + 1))

/-- A level under way: its children by key, and the labels that belong further down. -/
structure Level where
  children : Table String NodeRef := .empty
  below : Table NodeRef (List Tag) := .empty

/-- The node for a listed label: the known one with its id, or a new one. -/
def nodeFor (s : Rebuild) (label : Tag) : NodeRef × Rebuild :=
  match s.directory.registry.byId.get? label.id with
  | some r => (r, s)
  | none =>
    let r : NodeRef := ⟨s.directory.nodes.size⟩
    let made : Node := { id := label.id, name := label.name, kind := .user }
    (r, { s with
      directory := { s.directory with nodes := s.directory.nodes.push made }
      created := s.created ++ [r] })

/-- A label takes its node: the node gets the label's name and a place below `parent`, and is
registered. -/
def adopt (s : Rebuild) (parent : Option NodeRef) (label : Tag) : NodeRef × Rebuild :=
  let (r, s) := s.nodeFor label
  let directory := s.directory.modifyNode r fun n => { n with name := label.name, parent }
  (r, { s with directory, next := s.next.set directory.tag r })

def give (s : Rebuild) (r : NodeRef) (children : Table String NodeRef) : Rebuild :=
  { s with directory := s.directory.modifyNode r fun n => { n with children } }

/-- The child of a level whose key goes on to `rest` behind a slash. -/
def Level.owner? (level : Level) (rest : String) : Option NodeRef :=
  (level.children.entries.find? fun entry => Text.startsWith rest (entry.1 ++ "/")).map Prod.snd

/-- One label more: below the first child whose key goes on to it, or a child itself. -/
def place (parent : Option NodeRef) (state : Rebuild × Level) (label : Tag × String) :
    Rebuild × Level :=
  let (s, level) := state
  let (label, rest) := label
  match level.owner? rest with
  | some r => (s, { level with below := level.below.modify r (· ++ [label]) })
  | none =>
    let (r, s) := s.adopt parent label
    (s, ⟨level.children.put rest r, level.below.put r []⟩)

/-- The children of a node, or of the top, from the labels below it, and the tree below them.
Labels with fewer segments are placed first. Every child takes a label, so there are fewer further
down. -/
def rebuildLevel : Nat → Option NodeRef → String → List Tag → Rebuild →
    Table String NodeRef × Rebuild
  | 0, _, _, _, s => (.empty, s)
  | fuel + 1, parent, above, labels, s =>
    let placed := (labels.map fun label => (label, restOf above label.name)).mergeSort
      fun a b => depth a.2 ≤ depth b.2
    let (s, level) := placed.foldl (place parent) (s, {})
    let s := level.children.values.foldl (fun s r =>
      let below := (level.below.get? r).getD []
      let (children, s) := rebuildLevel fuel (some r) (s.directory.node r).name below s
      s.give r children) s
    (level.children, s)

/-- What is shown of some nodes, and of all below them, becomes what they have. -/
def reveal : Nat → List NodeRef → Directory → Directory
  | 0, _, d => d
  | fuel + 1, refs, d =>
    refs.foldl (fun d r =>
      let children := (d.node r).children
      reveal fuel children.values (d.modifyNode r fun n => { n with shown := children })) d

end Rebuild

namespace Directory

/-- What a rebuild did: the new directory, the nodes made and the nodes evicted. -/
structure Rebuilt where
  directory : Directory
  created : List NodeRef
  evicted : List NodeRef

/-- A node taken out of the tree. -/
def evictNode (n : Node) : Node :=
  { n with evicted := true, cached := none, parent := none, children := .empty, shown := .empty }

/-- The tree rebuilt from the listed labels of the user; their nodes are registered in `next`
beside those it holds. -/
def rebuildInto (d : Directory) (next : Registry NodeRef) (labels : List Tag) : Rebuilt :=
  let (roots, s) :=
    Rebuild.rebuildLevel (labels.length + 1) none "" labels { directory := d, next }
  let shown := Rebuild.reveal (s.directory.nodes.size + 1) roots.values s.directory
  let evicted := d.registry.nodes.filter fun r => !s.next.hasId (d.node r).id
  let cleared := evicted.foldl (fun d r => d.modifyNode r evictNode) shown
  { directory := { cleared with roots, shown := roots, registry := s.next }
    created := s.created
    evicted }

/-- The tree rebuilt from the listed labels of the user; the registry starts with the fixed
nodes. -/
def rebuild (d : Directory) (labels : List Tag) : Rebuilt := d.rebuildInto d.fixedRegistry labels

end Directory

end Mailroom.Label
