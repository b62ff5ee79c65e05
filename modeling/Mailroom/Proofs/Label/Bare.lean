import Mailroom.Proofs.Label.Takeover

/-! Bare directories: the tree and the registry without the labels that were loaded. A rebuild reads
nothing of the loaded labels, so it can be followed on bare directories. -/

namespace Mailroom.Label

/-- A node without its loaded label. -/
def Node.bare (n : Node) : Node := { n with cached := none }

namespace Directory

/-- The directory without the loaded labels. -/
def bare (d : Directory) : Directory := { d with nodes := d.nodes.map Node.bare }

theorem bare_initial : initial.bare = initial := by decide +kernel

@[simp] theorem node_bare (d : Directory) (r : NodeRef) : d.bare.node r = (d.node r).bare := by
  simp only [node, bare, Array.getElem?_map]
  cases d.nodes[r.index]? <;> rfl

/-! What directories with the same bare directory have in common. -/

theorem registry_of_bare {d e : Directory} (h : d.bare = e.bare) : d.registry = e.registry := by
  have hregistry := congrArg registry h
  exact hregistry

theorem node_of_bare {d e : Directory} (h : d.bare = e.bare) (r : NodeRef) :
    (d.node r).id = (e.node r).id ∧ (d.node r).name = (e.node r).name ∧
      (d.node r).evicted = (e.node r).evicted := by
  have hnode : (d.node r).bare = (e.node r).bare := by rw [← node_bare, h, node_bare]
  have hid := congrArg Node.id hnode
  have hname := congrArg Node.name hnode
  have hevicted := congrArg Node.evicted hnode
  exact ⟨hid, hname, hevicted⟩

@[simp] theorem tag_bare (d : Directory) : d.bare.tag = d.tag := by
  funext r
  rw [tag, node_bare]
  rfl

@[simp] theorem fixedRegistry_bare (d : Directory) : d.bare.fixedRegistry = d.fixedRegistry := by
  rw [fixedRegistry, tag_bare]
  rfl

/-- A change that does not look at loaded labels, followed on the bare directory. -/
theorem bare_modifyNode (d : Directory) (r : NodeRef) (f : Node → Node)
    (h : ∀ n, (f n).bare = f n.bare) : (d.modifyNode r f).bare = d.bare.modifyNode r f := by
  have hnodes : (d.nodes.modify r.index f).map Node.bare =
      (d.nodes.map Node.bare).modify r.index f := by
    apply Array.ext_getElem?
    intro i
    simp only [Array.getElem?_map, Array.getElem?_modify]
    split
    · cases d.nodes[i]? <;> simp [h]
    · rfl
  simp only [bare, modifyNode, hnodes]

/-- Keeping a loaded label, or forgetting it, shows in no bare directory. -/
theorem bare_modifyNode_cached (d : Directory) (r : NodeRef) (cached : Option (EntityRef × Nat)) :
    (d.modifyNode r fun n => { n with cached }).bare = d.bare := by
  have hnodes : (d.nodes.modify r.index fun n => { n with cached }).map Node.bare =
      d.nodes.map Node.bare := by
    apply Array.ext_getElem?
    intro i
    simp only [Array.getElem?_map, Array.getElem?_modify]
    split
    · cases d.nodes[i]? <;> rfl
    · rfl
  simp only [bare, modifyNode, hnodes]

theorem bare_keep (d : Directory) (r : NodeRef) (e : EntityRef) (generation : Nat) :
    (d.keep r e generation).bare = d.bare := bare_modifyNode_cached d r _

end Directory

namespace Rebuild

/-- A rebuild under way, without the loaded labels. -/
def bare (s : Rebuild) : Rebuild := { s with directory := s.directory.bare }

theorem bare_nodeFor (s : Rebuild) (label : Tag) :
    s.bare.nodeFor label = ((s.nodeFor label).1, (s.nodeFor label).2.bare) := by
  cases hk : s.directory.registry.byId.get? label.id with
  | some r =>
    have hbare : s.bare.directory.registry.byId.get? label.id = some r := hk
    rw [nodeFor_known hk, nodeFor_known hbare]
  | none => simp [nodeFor, hk, bare, Directory.bare, Node.bare]

theorem bare_adopt (s : Rebuild) (parent : Option NodeRef) (label : Tag) :
    s.bare.adopt parent label = ((s.adopt parent label).1, (s.adopt parent label).2.bare) := by
  have hnode := Directory.bare_modifyNode (s.nodeFor label).2.directory (s.nodeFor label).1
    (fun n => { n with name := label.name, parent }) fun _ => rfl
  have htag := Directory.tag_bare ((s.nodeFor label).2.directory.modifyNode (s.nodeFor label).1
    fun n => { n with name := label.name, parent })
  rw [hnode] at htag
  simp only [adopt, bare_nodeFor]
  simp only [bare, hnode, htag]

theorem bare_give (s : Rebuild) (r : NodeRef) (children : Table String NodeRef) :
    s.bare.give r children = (s.give r children).bare := by
  have hnode := Directory.bare_modifyNode s.directory r (fun n => { n with children }) fun _ => rfl
  simp only [give, bare, hnode]

/-- A state of a level, without the loaded labels. -/
def bareState (state : Rebuild × Level) : Rebuild × Level := (state.1.bare, state.2)

theorem bare_place (parent : Option NodeRef) (state : Rebuild × Level) (label : Tag × String) :
    place parent (bareState state) label = bareState (place parent state label) := by
  obtain ⟨s, level⟩ := state
  obtain ⟨label, rest⟩ := label
  cases howner : level.owner? rest with
  | some r => simp only [bareState, place_of_owner howner]
  | none => simp only [bareState, place_of_top howner, bare_adopt]

theorem bare_sift (parent : Option NodeRef) (above : String) (labels : List Tag) (s : Rebuild) :
    sift parent above labels s.bare = bareState (sift parent above labels s) := by
  change List.foldl (place parent) (bareState (s, {})) _ =
    bareState (List.foldl (place parent) (s, {}) _)
  exact List.foldl_hom bareState (bare_place parent)

theorem bare_rebuildLevel (fuel : Nat) : ∀ (parent : Option NodeRef) (above : String)
    (labels : List Tag) (s : Rebuild), rebuildLevel fuel parent above labels s.bare =
      ((rebuildLevel fuel parent above labels s).1,
        (rebuildLevel fuel parent above labels s).2.bare) := by
  induction fuel with
  | zero => exact fun _ _ _ _ => rfl
  | succ fuel ih =>
    intro parent above labels s
    simp only [rebuildLevel_succ, bare_sift, bareState]
    congr 1
    refine List.foldl_hom Rebuild.bare fun t r => ?_
    have hname : (t.bare.directory.node r).name = (t.directory.node r).name := by
      simp [bare, Node.bare]
    rw [hname, ih, bare_give]

theorem bare_reveal (fuel : Nat) : ∀ (refs : List NodeRef) (d : Directory),
    reveal fuel refs d.bare = (reveal fuel refs d).bare := by
  induction fuel with
  | zero => exact fun _ _ => rfl
  | succ fuel ih =>
    intro refs d
    refine List.foldl_hom Directory.bare fun d r => ?_
    have hchildren : (d.bare.node r).children = (d.node r).children := by simp [Node.bare]
    have hnode := Directory.bare_modifyNode d r
      (fun n => { n with shown := (d.node r).children }) fun _ => rfl
    simp only [hchildren, ← hnode, ih]

/-- The end of a rebuild evicts the same nodes and leaves the same bare directory. -/
theorem bare_finish (d : Directory) (roots : Table String NodeRef) (s : Rebuild) :
    finish d.bare roots s.bare =
      { finish d roots s with directory := (finish d roots s).directory.bare } := by
  have hevict : ∀ (refs : List NodeRef) (d : Directory),
      refs.foldl (fun d r => d.modifyNode r Directory.evictNode) d.bare =
        (refs.foldl (fun d r => d.modifyNode r Directory.evictNode) d).bare := fun refs d =>
    List.foldl_hom Directory.bare fun d r =>
      (Directory.bare_modifyNode d r Directory.evictNode fun _ => rfl).symm
  have hsize : s.bare.directory.nodes.size = s.directory.nodes.size := Array.size_map
  have hid : ∀ r, (d.bare.node r).id = (d.node r).id := fun r => by simp [Node.bare]
  simp only [finish, hsize, hid]
  simp only [bare, bare_reveal, hevict]
  rfl

end Rebuild

namespace Directory

/-- A rebuild does the same to a directory with loaded labels as to the bare one. -/
theorem bare_rebuild (d : Directory) (labels : List Tag) : d.bare.rebuild labels =
    { d.rebuild labels with directory := (d.rebuild labels).directory.bare } := by
  have hstart : ({ directory := d.bare, next := d.fixedRegistry } : Rebuild) =
      Rebuild.bare { directory := d, next := d.fixedRegistry } := rfl
  simp only [rebuild, fixedRegistry_bare, Rebuild.rebuildInto_eq, hstart,
    Rebuild.bare_rebuildLevel, Rebuild.bare_finish]

end Directory

end Mailroom.Label
