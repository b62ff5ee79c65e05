import Mailroom.Proofs.Label.Bare
import Mailroom.Proofs.Label.Tree

/-! Directories that are rebuilt from one listing and then from another. What a rebuild leaves is
the tree of its listing, whatever the directory was before; and a label that is listed again keeps
its node. Only the second listing has to be a proper one. -/

namespace Mailroom.Label

open Rebuild (finish)

namespace Directory

/-- A directory whose tree is that of a listing, with every label of it found by its id. -/
structure Shows (d : Directory) (labels : List Tag) : Prop where
  tree : d.IsTreeOf labels d.nodeOf
  byId : ∀ l ∈ labels, d.registry.byId.get? l.id = some (d.nodeOf l)

namespace IsTreeOf

variable {d e : Directory} {labels : List Tag} {ref other : Tag → NodeRef}

/-- A tree is one of the listed labels, so it does not matter which node others would have. -/
theorem congr (h : d.IsTreeOf labels ref) (hsame : ∀ l ∈ labels, other l = ref l) :
    d.IsTreeOf labels other := by
  have howner : ∀ owner : Option Tag, (∀ o ∈ owner, o ∈ labels) →
      owner.map other = owner.map ref := by
    rintro (_ | o) ho
    · rfl
    · exact congrArg some (hsame o (ho o rfl))
  constructor
  case tag => exact fun l hl => hsame l hl ▸ h.tag l hl
  case inTree_iff =>
    intro r
    rw [h.inTree_iff]
    exact exists_congr fun l => and_congr_right fun hl => by rw [hsame l hl]
  case parent =>
    intro l hl owner hangs
    rw [hsame l hl, howner owner hangs.owner_mem]
    exact h.parent l hl owner hangs
  case row =>
    intro owner hlisted
    obtain ⟨row, hmem, hsorted, hentries⟩ := h.row owner hlisted
    refine ⟨row, hmem, hsorted, ?_⟩
    rw [howner owner hlisted, hentries]
    exact List.map_congr_left fun l hl => by rw [hsame l ((hmem l).mp hl).1]
  case shown => exact ⟨h.shown.1, fun l hl => hsame l hl ▸ h.shown.2 l hl⟩

/-- Loaded labels have no part in a tree. -/
theorem transfer (h : d.IsTreeOf labels ref) (hroots : e.roots = d.roots)
    (hshown : e.shown = d.shown) (hnode : ∀ r, (e.node r).bare = (d.node r).bare) :
    e.IsTreeOf labels ref := by
  have hchildren : ∀ r, (e.node r).children = (d.node r).children := fun r => by
    have hsame := congrArg Node.children (hnode r)
    exact hsame
  have hparent : ∀ r, (e.node r).parent = (d.node r).parent := fun r => by
    have hsame := congrArg Node.parent (hnode r)
    exact hsame
  have htag : ∀ r, e.tag r = d.tag r := fun r => by
    have hid := congrArg Node.id (hnode r)
    have hname := congrArg Node.name (hnode r)
    exact congrArg₂ Tag.mk hid hname
  constructor
  case tag => exact fun l hl => (htag _).trans (h.tag l hl)
  case inTree_iff =>
    intro r
    rw [← h.inTree_iff, InTree, InTree, hroots]
    exact ⟨Below.congr fun q => (hchildren q).symm, Below.congr hchildren⟩
  case parent => exact fun l hl owner hangs => (hparent _).trans (h.parent l hl owner hangs)
  case row =>
    intro owner hlisted
    obtain ⟨row, hmem, hsorted, hentries⟩ := h.row owner hlisted
    refine ⟨row, hmem, hsorted, hentries ▸ congrArg Table.entries ?_⟩
    cases owner with
    | none => exact hroots
    | some o => exact hchildren (ref o)
  case shown =>
    refine ⟨hshown.trans (h.shown.1.trans hroots.symm), fun l hl => ?_⟩
    have hsame := congrArg Node.shown (hnode (ref l))
    exact hsame.trans ((h.shown.2 l hl).trans (hchildren _).symm)

end IsTreeOf

variable {s d e : Directory} {labels : List Tag}

theorem Shows.transfer (h : d.Shows labels) (hregistry : e.registry = d.registry)
    (hroots : e.roots = d.roots) (hshown : e.shown = d.shown)
    (hnode : ∀ r, (e.node r).bare = (d.node r).bare) : e.Shows labels := by
  have hnodeOf : e.nodeOf = d.nodeOf := by
    unfold nodeOf
    rw [hregistry]
  refine ⟨?_, ?_⟩
  · rw [hnodeOf]
    exact h.tree.transfer hroots hshown hnode
  · rw [hnodeOf, hregistry]
    exact h.byId

theorem Shows.of_bare (h : d.bare.Shows labels) : d.Shows labels :=
  h.transfer rfl rfl rfl fun r => by rw [node_bare]; rfl

theorem Stands.of_bare {listings : List (List Tag)} (h : Stands s d.bare listings) :
    Stands s d listings := by
  refine h.transfer rfl rfl fun r hr => ?_
  have hhas : d.Has r := by simpa [Has, bare] using hr
  exact ⟨hhas, by rw [tag_bare], by rw [node_bare]; rfl⟩

/-- A rebuild shows its listing, and a label that was registered before keeps its node. -/
theorem Based.shows_rebuild (h : Based s d) (hp : Proper labels) :
    (d.rebuild labels).directory.Shows labels ∧
      ∀ l ∈ labels, ∀ r, d.registry.byId.get? l.id = some r →
        (d.rebuild labels).directory.nodeOf l = r := by
  obtain ⟨adopted, given, hlaying⟩ :=
    Rebuild.exists_laying_of_links h.keyed hp (links_fixedRegistry h.has_fixed)
  refine ⟨⟨hlaying.isTreeOf, fun l hl => ?_⟩, fun l hl r => hlaying.nodeOf_known hl⟩
  obtain ⟨a, ha, rfl⟩ := hlaying.exists_adopted hl
  exact (hlaying.byId a ha).trans (congrArg some (hlaying.nodeOf_label ha).symm)

/-- Of a directory that shows a listing, one with fewer labels leaves the tree of these, with the
nodes that they had. -/
theorem Shows.relisted (h : d.Shows labels) (hbased : Based s d) (hp : Proper labels)
    {few : List Tag} (hfew : few.Sublist labels) :
    (d.rebuild few).directory.Shows few ∧
      ∀ l ∈ few, (d.rebuild few).directory.nodeOf l = d.nodeOf l := by
  obtain ⟨hshows, hkept⟩ := hbased.shows_rebuild (hp.sublist hfew)
  exact ⟨hshows, fun l hl => hkept l hl _ (h.byId l (hfew.subset hl))⟩

end Directory

end Mailroom.Label
