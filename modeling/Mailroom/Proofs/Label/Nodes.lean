import Mailroom.Proofs.Label.Takeover

/-! What a node is. A rebuild gives nodes new names and places, shows their children, evicts some
and makes new ones for listed labels; it changes nothing else of a node. So what holds of a node and
does not depend on that holds of it after a rebuild. -/

namespace Mailroom.Label

open Rebuild (Adoption Walk)

/-- A property of nodes that does not depend on their names and places. -/
structure Node.Lasting (P : Node → Prop) : Prop where
  place : ∀ n name parent children shown, P n → P { n with name, parent, children, shown }
  evict : ∀ n, P n → P (Directory.evictNode n)

variable {P : Node → Prop}

theorem Directory.holds_modifyNode {d : Directory} {f : Node → Node} (hf : ∀ n, P n → P (f n))
    (r : NodeRef) {q : NodeRef} (h : P (d.node q)) : P ((d.modifyNode r f).node q) := by
  by_cases hq : q = r
  · subst hq
    by_cases hhas : d.Has q
    · rw [node_modifyNode_self f hhas]
      exact hf _ h
    · rw [node_modifyNode_of_not_has f hhas]
      exact h
  · rw [node_modifyNode_of_ne f hq]
    exact h

namespace Rebuild

/-- The node that is made for a label that is not known. -/
def made (label : Tag) : Node := { id := label.id, name := label.name, kind := .user }

variable {q : NodeRef}

theorem holds_nodeFor {s : Rebuild} {label : Tag} (h : P (s.directory.node q))
    (hnew : P (made label)) : P ((s.nodeFor label).2.directory.node q) := by
  cases hk : s.directory.registry.byId.get? label.id with
  | some r =>
    rw [nodeFor_known hk]
    exact h
  | none =>
    obtain ⟨-, hnodes, -⟩ := nodeFor_new hk
    rw [Directory.node, hnodes, Array.getElem?_push]
    split
    · exact hnew
    · exact h

theorem Walk.holds_node {s t : Rebuild} {adopted : List Adoption}
    {given : List (NodeRef × Table String NodeRef)} (hw : Walk s adopted given t)
    (hP : Node.Lasting P) (h : P (s.directory.node q))
    (hnew : ∀ a ∈ adopted, P (made a.label)) : P (t.directory.node q) := by
  induction hw with
  | nil => exact h
  | @adopt _ _ t parent label _ ih =>
    have hbefore := ih fun a ha => hnew a (List.mem_append_left _ ha)
    have hnew := hnew _ List.mem_concat_self
    exact Directory.holds_modifyNode (fun n => hP.place n label.name parent n.children n.shown) _
      (holds_nodeFor hbefore hnew)
  | give r children _ _ ih =>
    exact Directory.holds_modifyNode (fun n => hP.place n n.name n.parent children n.shown) r
      (ih hnew)

theorem Walk.holds_finish {d : Directory} {next : Registry NodeRef} {s : Rebuild}
    {adopted : List Adoption} {given : List (NodeRef × Table String NodeRef)}
    (hw : Walk { directory := d, next } adopted given s) (hd : d.Keyed) (hP : Node.Lasting P)
    (h : P (s.directory.node q)) (roots : Table String NodeRef) :
    P ((finish d roots s).directory.node q) := by
  by_cases hq : q ∈ (finish d roots s).evicted
  · rw [node_finish_of_mem hq (hw.has (has_of_mem_evicted hd hq))]
    exact hP.evict _ h
  · obtain ⟨shown, hnode, -⟩ := node_finish_of_not_mem hq
    rw [hnode]
    exact hP.place _ _ _ _ shown h

end Rebuild

/-- A property of a node, and of new ones, holds of the node after a rebuild. -/
theorem Directory.holds_rebuild {d : Directory} {labels : List Tag} (hP : Node.Lasting P)
    (hd : d.Keyed) {r : NodeRef} (h : P (d.node r)) (hnew : ∀ l ∈ labels, P (Rebuild.made l)) :
    P ((d.rebuild labels).directory.node r) := by
  obtain ⟨adopted, given, hwalk, hlisted⟩ := Rebuild.rebuildLevel_walk (labels.length + 1) none ""
    labels { directory := d, next := d.fixedRegistry } hd
  have hlaid := hwalk.holds_node hP h fun a ha => hnew _ (hlisted a ha)
  rw [rebuild, Rebuild.rebuildInto_eq]
  exact hwalk.holds_finish hd hP hlaid _

/-- A rebuild keeps no label anew. -/
theorem Directory.cached_rebuild {d : Directory} (hd : d.Keyed) {labels : List Tag} {r : NodeRef}
    {e : EntityRef} {g : Nat} (h : ((d.rebuild labels).directory.node r).cached = some (e, g)) :
    (d.node r).cached = some (e, g) := by
  have hlasting : Node.Lasting fun n => n.cached = some (e, g) → (d.node r).cached = some (e, g) :=
    ⟨fun _ _ _ _ _ hn => hn, fun _ _ => by rintro ⟨⟩⟩
  exact holds_rebuild hlasting hd id (fun _ _ => by rintro ⟨⟩) h

/-- Out of use after a rebuild are the nodes that were so before and those evicted by it. -/
theorem Directory.evicted_rebuild {d : Directory} (hd : d.Keyed) (labels : List Tag)
    (r : NodeRef) : ((d.rebuild labels).directory.node r).evicted = true ↔
      (d.node r).evicted = true ∨ r ∈ (d.rebuild labels).evicted := by
  obtain ⟨adopted, given, hwalk, -⟩ := Rebuild.rebuildLevel_walk (labels.length + 1) none ""
    labels { directory := d, next := d.fixedRegistry } hd
  rw [rebuild, Rebuild.rebuildInto_eq]
  exact Rebuild.finish_evicted hwalk hd

/-- A rebuild keeps every node that is there, under its id. -/
theorem Directory.rebuild_keeps {d : Directory} (hd : d.Keyed) (labels : List Tag) {r : NodeRef}
    (hr : d.Has r) : (d.rebuild labels).directory.Has r ∧
      ((d.rebuild labels).directory.node r).id = (d.node r).id := by
  obtain ⟨adopted, given, hwalk, -⟩ := Rebuild.rebuildLevel_walk (labels.length + 1) none ""
    labels { directory := d, next := d.fixedRegistry } hd
  rw [rebuild, Rebuild.rebuildInto_eq]
  exact ⟨Rebuild.finish_has.mpr (hwalk.has hr),
    (Rebuild.finish_id hwalk hd).trans (hwalk.id_eq hr)⟩

end Mailroom.Label
