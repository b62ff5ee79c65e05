import Mailroom.Proofs.Label.Registration
import Mailroom.Proofs.Label.Reveal

/-! The end of a rebuild. When all labels have their nodes, the tree is shown and the nodes whose
ids are not registered any more are evicted; the other nodes stay as the steps of the rebuild left
them. -/

namespace Mailroom.Label.Rebuild

/-- The end of a rebuild: the tree is shown, and the nodes whose labels are gone are evicted. -/
def finish (d : Directory) (roots : Table String NodeRef) (s : Rebuild) : Directory.Rebuilt :=
  let shown := reveal (s.directory.nodes.size + 1) roots.values s.directory
  let evicted := d.registry.nodes.filter fun r => !s.next.hasId (d.node r).id
  let cleared := evicted.foldl (fun d r => d.modifyNode r Directory.evictNode) shown
  { directory := { cleared with roots, shown := roots, registry := s.next }
    created := s.created
    evicted }

/-- A rebuild is the layout of all labels and then its end. -/
theorem rebuildInto_eq (d : Directory) (next : Registry NodeRef) (labels : List Tag) :
    d.rebuildInto next labels =
      finish d (rebuildLevel (labels.length + 1) none "" labels { directory := d, next }).1
        (rebuildLevel (labels.length + 1) none "" labels { directory := d, next }).2 := rfl

variable {d : Directory} {next : Registry NodeRef} {roots : Table String NodeRef} {s : Rebuild}
  {adopted : List Adoption} {given : List (NodeRef × Table String NodeRef)} {r : NodeRef}

theorem mem_evicted : r ∈ (finish d roots s).evicted ↔
    r ∈ d.registry.nodes ∧ s.next.byId.get? (d.node r).id = none := by
  simp [finish, Registry.hasId, Table.has]

theorem has_of_mem_evicted (hd : d.Keyed) (hr : r ∈ (finish d roots s).evicted) : d.Has r := by
  obtain ⟨entry, hentry, rfl⟩ := List.mem_map.mp (mem_evicted.mp hr).1
  exact (hd entry hentry).1

theorem not_mem_evicted {q : NodeRef} (h : s.next.byId.get? (d.node r).id = some q) :
    r ∉ (finish d roots s).evicted := by
  intro hr
  rw [(mem_evicted.mp hr).2] at h
  cases h

theorem finish_has : (finish d roots s).directory.Has r ↔ s.directory.Has r :=
  (Directory.has_foldl_modifyNode _ _).trans (reveal_reveals _ _ _).has_iff

/-- A node that is not evicted at the end changes in what it shows only. -/
theorem node_finish_of_not_mem (h : r ∉ (finish d roots s).evicted) :
    ∃ shown, (finish d roots s).directory.node r = { s.directory.node r with shown } ∧
      (shown = (s.directory.node r).shown ∨ shown = (s.directory.node r).children) := by
  obtain ⟨shown, hnode, hshown⟩ := (reveal_reveals (s.directory.nodes.size + 1) roots.values
    s.directory).node r
  exact ⟨shown, (Directory.node_foldl_of_not_mem h _).trans hnode, hshown⟩

/-- A node that is evicted at the end keeps its id, its name and its kind. -/
theorem node_finish_of_mem (h : r ∈ (finish d roots s).evicted) (hr : s.directory.Has r) :
    (finish d roots s).directory.node r = Directory.evictNode (s.directory.node r) := by
  have hreveals := reveal_reveals (s.directory.nodes.size + 1) roots.values s.directory
  obtain ⟨shown, hnode, _⟩ := hreveals.node r
  refine (Directory.node_foldl_of_mem (f := Directory.evictNode) (fun _ => rfl) h _
    (hreveals.has_iff.mpr hr)).trans ?_
  rw [hnode]
  rfl

section Walking

variable (h : Walk { directory := d, next } adopted given s)
include h

theorem finish_fixed : (finish d roots s).directory.fixed = d.fixed := by
  have hcleared := Directory.foldl_modifyNode_directory (f := Directory.evictNode)
    (finish d roots s).evicted (reveal (s.directory.nodes.size + 1) roots.values s.directory)
  have hshown := (reveal_reveals (s.directory.nodes.size + 1) roots.values s.directory).directory
  refine (congrArg Directory.fixed hcleared).trans ((congrArg Directory.fixed hshown).trans ?_)
  rw [h.directory]

variable (hd : d.Keyed)
include hd

theorem finish_id : ((finish d roots s).directory.node r).id = (s.directory.node r).id := by
  by_cases hr : r ∈ (finish d roots s).evicted
  · rw [node_finish_of_mem hr (h.has (has_of_mem_evicted hd hr))]
    rfl
  · obtain ⟨_, hnode, _⟩ := node_finish_of_not_mem hr
    rw [hnode]

omit hd in
/-- A node that no label takes keeps its id and its name. -/
theorem finish_tag (hr : ∀ a ∈ adopted, a.node ≠ r) (hhas : d.Has r) :
    (finish d roots s).directory.tag r = d.tag r := by
  obtain ⟨children, hwalk⟩ := h.node_of_not_adopted hr
  by_cases hmem : r ∈ (finish d roots s).evicted
  · rw [Directory.tag, node_finish_of_mem hmem (h.has hhas), hwalk]
    rfl
  · obtain ⟨shown, hend, _⟩ := node_finish_of_not_mem hmem
    rw [Directory.tag, hend, hwalk]
    rfl

/-- Marked at the end are the nodes that were so before and those evicted now. -/
theorem finish_evicted : ((finish d roots s).directory.node r).evicted = true ↔
    (d.node r).evicted = true ∨ r ∈ (finish d roots s).evicted := by
  by_cases hr : r ∈ (finish d roots s).evicted
  · rw [node_finish_of_mem hr (h.has (has_of_mem_evicted hd hr))]
    simp [hr, Directory.evictNode]
  · obtain ⟨_, hnode, _⟩ := node_finish_of_not_mem hr
    rw [hnode]
    simp [hr, h.evicted_eq]

theorem finish_keyed (hnext : ∀ entry ∈ next.byId.entries, d.Has entry.2 ∧
    (d.node entry.2).id = entry.1) : (finish d roots s).directory.Keyed := by
  intro entry hentry
  rw [finish_has, finish_id h hd]
  rcases h.mem_next hd hentry with hold | ⟨a, ha, rfl⟩
  · obtain ⟨hhas, hid⟩ := hnext entry hold
    exact ⟨h.has hhas, (h.id_eq hhas).trans hid⟩
  · exact h.adopted_self hd ha

theorem finish_links (hnext : d.Links next) :
    (finish d roots s).directory.Links (finish d roots s).directory.registry :=
  (h.links hd hnext).transfer fun _ hr => ⟨finish_has.mpr hr, finish_id h hd⟩

end Walking

end Mailroom.Label.Rebuild
