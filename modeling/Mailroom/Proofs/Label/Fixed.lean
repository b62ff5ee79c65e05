import Mailroom.Proofs.Label.Ending

/-! The fixed nodes. They are registered first in every rebuild and no label takes them, as no
listed label has one of their ids. A rebuild leaves them their ids and names; whether a fixed node
is still registered at the end depends on whether a label took its name. -/

namespace Mailroom.Label

open Rebuild (Adoption Walk finish)

namespace Directory

/-! ### The registry of the fixed nodes -/

section Registry

variable {d : Directory}

theorem links_fixedRegistry (hhas : ∀ f ∈ d.fixed, d.Has f) : d.Links d.fixedRegistry :=
  (Links.empty d).foldl_set hhas

theorem byName_fixedRegistry (hhas : ∀ f ∈ d.fixed, d.Has f) (hp : Proper (d.fixed.map d.tag))
    {f : NodeRef} (hf : f ∈ d.fixed) : d.fixedRegistry.byName.get? (d.node f).name = some f :=
  (Links.empty d).byName_foldl_set hhas hp hf

theorem mem_fixedRegistry {entry : String × NodeRef} (h : entry ∈ d.fixedRegistry.byId.entries) :
    ∃ f ∈ d.fixed, entry = ((d.node f).id, f) := by
  rcases Registry.mem_byId_foldl_set h with hempty | hfixed
  · simp [Registry.empty, Table.empty] at hempty
  · exact hfixed

theorem nodup_fixedRegistry : d.fixedRegistry.byId.keys.Nodup :=
  Registry.nodup_byId_foldl_set (by simp [Registry.empty, Table.empty, Table.keys])

end Registry

/-- What every rebuild keeps of the directory `s` that it all began with: the fixed nodes with their
ids and names, and a registry of existing nodes under their own ids. -/
structure Based (s d : Directory) : Prop where
  fixed : d.fixed = s.fixed
  fixed_tag : ∀ f ∈ s.fixed, d.Has f ∧ d.tag f = s.tag f
  keyed : d.Keyed
  nodup : d.registry.byId.keys.Nodup

namespace Based

variable {s d : Directory} {f r : NodeRef}

theorem has_fixed (h : Based s d) : ∀ f ∈ d.fixed, d.Has f := fun f hf =>
  (h.fixed_tag f (h.fixed ▸ hf)).1

theorem map_tag (h : Based s d) : d.fixed.map d.tag = s.fixed.map s.tag := by
  rw [h.fixed]
  exact List.map_congr_left fun f hf => (h.fixed_tag f hf).2

theorem node_id (h : Based s d) (hf : f ∈ s.fixed) : (d.node f).id = (s.node f).id :=
  congrArg Tag.id (h.fixed_tag f hf).2

theorem node_name (h : Based s d) (hf : f ∈ s.fixed) : (d.node f).name = (s.node f).name :=
  congrArg Tag.name (h.fixed_tag f hf).2

/-- Nothing else matters than the fixed nodes, the registry, and the ids and names of nodes. -/
theorem transfer (h : Based s d) {e : Directory} (hfixed : e.fixed = d.fixed)
    (hregistry : e.registry = d.registry)
    (hnode : ∀ r, d.Has r → e.Has r ∧ e.tag r = d.tag r) : Based s e := by
  refine ⟨hfixed.trans h.fixed, fun f hf => ?_, fun entry hentry => ?_, hregistry ▸ h.nodup⟩
  · obtain ⟨hhas, htag⟩ := h.fixed_tag f hf
    exact ⟨(hnode f hhas).1, (hnode f hhas).2.trans htag⟩
  · rw [hregistry] at hentry
    obtain ⟨hhas, hid⟩ := h.keyed entry hentry
    exact ⟨(hnode _ hhas).1, (congrArg Tag.id (hnode _ hhas).2).trans hid⟩

theorem modifyNode (h : Based s d) (f : Node → Node) (hid : ∀ n, (f n).id = n.id)
    (hname : ∀ n, (f n).name = n.name) (r : NodeRef) : Based s (d.modifyNode r f) :=
  h.transfer rfl rfl fun q hq => ⟨(has_modifyNode _).mpr hq,
    congrArg₂ Tag.mk (field_modifyNode Node.id hid q) (field_modifyNode Node.name hname q)⟩

/-- A node is in use when it is found by its id. -/
theorem mem_nodes_iff (h : Based s d) :
    r ∈ d.registry.nodes ↔ d.registry.byId.get? (d.node r).id = some r := by
  constructor
  · intro hr
    obtain ⟨entry, hentry, rfl⟩ := List.mem_map.mp hr
    rw [(h.keyed entry hentry).2]
    exact Table.get?_of_mem h.nodup hentry
  · intro hr
    exact List.mem_map.mpr ⟨_, Table.mem_of_get? hr, rfl⟩

section Rebuilding

variable {roots : Table String NodeRef} {t : Rebuild} {adopted : List Adoption}
  {given : List (NodeRef × Table String NodeRef)} (h : Based s d)
  (hw : Walk { directory := d, next := d.fixedRegistry } adopted given t)
  (hid : ∀ a ∈ adopted, ∀ f ∈ s.fixed, a.label.id ≠ (s.node f).id)
include h hw hid

/-- A fixed node is registered at the end unless a label took its name. -/
theorem registered_or_taken (hp : Proper (s.fixed.map s.tag)) (hf : f ∈ s.fixed) :
    t.next.byId.get? (s.node f).id = some f ∧ (¬∃ a ∈ adopted, a.label.name = (s.node f).name) ∨
      t.next.byId.get? (s.node f).id = none ∧ ∃ a ∈ adopted, a.label.name = (s.node f).name := by
  have hlinks := links_fixedRegistry h.has_fixed
  have hname := byName_fixedRegistry h.has_fixed (h.map_tag ▸ hp) (h.fixed ▸ hf)
  rcases hw.holder h.keyed hlinks hname fun a ha => h.node_id hf ▸ hid a ha f hf with
    ⟨hheld, hfree⟩ | ⟨hlost, htaken⟩
  · have hfound := (hw.links h.keyed hlinks).found _ f hheld
    rw [hw.id_eq (h.fixed_tag f hf).1, h.node_id hf] at hfound
    exact Or.inl ⟨hfound, fun ⟨a, ha, htaken⟩ => hfree a ha (htaken.trans (h.node_name hf).symm)⟩
  · rw [h.node_id hf] at hlost
    rw [h.node_name hf] at htaken
    exact Or.inr ⟨hlost, htaken⟩

theorem finish_based : Based s (finish d roots t).directory := by
  constructor
  case fixed => exact (Rebuild.finish_fixed hw).trans h.fixed
  case fixed_tag =>
    intro f hf
    obtain ⟨hhas, htag⟩ := h.fixed_tag f hf
    have hne : ∀ a ∈ adopted, a.node ≠ f := by
      rintro a ha rfl
      have hown := (hw.adopted_self h.keyed ha).2
      rw [hw.id_eq hhas, h.node_id hf] at hown
      exact hid a ha _ hf hown.symm
    exact ⟨Rebuild.finish_has.mpr (hw.has hhas),
      (Rebuild.finish_tag hw hne hhas).trans htag⟩
  case keyed =>
    refine Rebuild.finish_keyed hw h.keyed fun entry hentry => ?_
    obtain ⟨f, hf, rfl⟩ := mem_fixedRegistry hentry
    exact ⟨h.has_fixed f hf, rfl⟩
  case nodup => exact hw.nodup_next nodup_fixedRegistry

end Rebuilding

end Based

/-! ### Where runs begin -/

/-- A directory before any rebuild: there is no tree, and the fixed nodes are registered. -/
structure Fresh (s : Directory) : Prop where
  roots : s.roots = .empty
  shown : s.shown = .empty
  registry : s.registry = s.fixedRegistry
  has : ∀ f ∈ s.fixed, s.Has f
  proper : Proper (s.fixed.map s.tag)
  living : ∀ r, (s.node r).evicted = false

theorem Fresh.based {s : Directory} (h : s.Fresh) : Based s s := by
  refine ⟨rfl, fun f hf => ⟨h.has f hf, rfl⟩, fun entry hentry => ?_,
    h.registry ▸ nodup_fixedRegistry⟩
  rw [h.registry] at hentry
  obtain ⟨f, hf, rfl⟩ := mem_fixedRegistry hentry
  exact ⟨h.has f hf, rfl⟩

theorem Fresh.byId {s : Directory} (h : s.Fresh) {f : NodeRef} (hf : f ∈ s.fixed) :
    s.registry.byId.get? (s.node f).id = some f := by
  rw [h.registry]
  exact (links_fixedRegistry h.has).found _ _ (byName_fixedRegistry h.has h.proper hf)

/-- What holds of the nodes of the fixed labels holds of every node that a mailbox begins with. -/
theorem holds_initial {P : Node → Prop} (hnone : P default) (hfixed : ∀ n ∈ fixedNodes, P n)
    (r : NodeRef) : P (initial.node r) := by
  change P ((fixedNodes.toArray[r.index]?).getD default)
  cases hr : fixedNodes.toArray[r.index]? with
  | none => exact hnone
  | some n => exact hfixed n (List.mem_toArray.mp (Array.mem_of_getElem? hr))

/-- A mailbox begins without a tree, its fixed labels registered. -/
theorem fresh_initial : initial.Fresh := by
  have hproper : Proper (initial.fixed.map initial.tag) := by
    constructor <;> decide +kernel
  exact ⟨rfl, rfl, rfl, by decide +kernel, hproper,
    holds_initial (P := fun n => n.evicted = false) rfl (by decide +kernel)⟩

end Directory

end Mailroom.Label
