import Mailroom.Proofs.Label.Fixed
import Mailroom.Proofs.Label.Tree

/-! Nodes over many rebuilds. `Settled` is what every rebuild preserves: in use are the fixed nodes
and those of the tree, they are the registered ones, and a node out of use has no place and no
children. From it follow the life of a node: it stays with its label as long as the label is listed,
and once evicted it never comes back. -/

namespace Mailroom.Label

open Rebuild (Adoption Laying finish)

namespace Directory

/-- The directories that rebuilds lead to from `s`. -/
structure Settled (s d : Directory) : Prop extends Based s d where
  links : d.Links d.registry
  nodes_iff : ∀ r, r ∈ d.registry.nodes ↔ r ∈ s.fixed ∨ d.InTree r
  apart : ∀ r, d.InTree r → ∀ f ∈ s.fixed, (d.node r).id ≠ (s.node f).id
  living : ∀ r ∈ d.registry.nodes, (d.node r).evicted = false
  bare : ∀ r, (d.node r).evicted = true →
    (d.node r).parent = none ∧ (d.node r).children = .empty ∧ (d.node r).shown = .empty

/-- A node that is out of use: it has no place in the tree and is not registered. -/
structure Gone (d : Directory) (r : NodeRef) : Prop where
  marked : (d.node r).evicted = true
  parent : (d.node r).parent = none
  children : (d.node r).children = .empty
  shown : (d.node r).shown = .empty
  not_inTree : ¬d.InTree r
  not_byId : r ∉ d.registry.byId.values
  not_byName : r ∉ d.registry.byName.values

theorem not_below_nil {d : Directory} {r : NodeRef} : ¬d.Below [] r := by
  intro h
  obtain ⟨q, hq, _⟩ := h.eq_or_below
  simp at hq

theorem Fresh.settled {s : Directory} (h : s.Fresh) : Settled s s := by
  have hempty : ∀ r, ¬s.InTree r := fun r => by
    rw [InTree, h.roots]
    exact not_below_nil
  constructor
  case toBased => exact h.based
  case links => exact h.registry ▸ links_fixedRegistry h.has
  case nodes_iff =>
    intro r
    simp only [hempty, or_false]
    constructor
    · intro hr
      obtain ⟨entry, hentry, rfl⟩ := List.mem_map.mp hr
      rw [h.registry] at hentry
      obtain ⟨f, hf, rfl⟩ := mem_fixedRegistry hentry
      exact hf
    · exact fun hr => h.based.mem_nodes_iff.mpr (h.byId hr)
  case apart => exact fun r hr => absurd hr (hempty r)
  case living => exact fun r _ => h.living r
  case bare =>
    intro r hr
    rw [h.living r] at hr
    cases hr

namespace Settled

variable {s d : Directory} {labels : List Tag} {r : NodeRef}

/-- A node marked as evicted is out of use. -/
theorem gone (h : Settled s d) (hr : (d.node r).evicted = true) : d.Gone r := by
  have hout : r ∉ d.registry.nodes := fun hmem => by
    rw [h.living r hmem] at hr
    cases hr
  obtain ⟨hparent, hchildren, hshown⟩ := h.bare r hr
  refine ⟨hr, hparent, hchildren, hshown, fun hin => hout ((h.nodes_iff r).mpr (Or.inr hin)), hout,
    fun hname => ?_⟩
  obtain ⟨⟨name, _⟩, hentry, rfl⟩ := List.mem_map.mp hname
  have hfound := h.links.found name _ (Table.get?_of_mem h.links.nodup hentry)
  exact hout (List.mem_map.mpr ⟨_, Table.mem_of_get? hfound, rfl⟩)

/-! ### One rebuild -/

section Turn

variable {roots : Table String NodeRef} {t : Rebuild} {adopted : List Adoption}
  {given : List (NodeRef × Table String NodeRef)} (h : Settled s d)
  (hp : Proper (labels ++ s.fixed.map s.tag))
  (hl : Laying d d.fixedRegistry labels roots t adopted given)
include h hp hl

omit h in
theorem label_ne_fixed {a : Adoption} (ha : a ∈ adopted) {f : NodeRef} (hf : f ∈ s.fixed) :
    a.label.id ≠ (s.node f).id ∧ a.label.name ≠ (s.node f).name := by
  have htag : s.tag f ∈ s.fixed.map s.tag := List.mem_map_of_mem hf
  have hids := hp.ids
  have hnames := hp.names
  rw [List.map_append, List.nodup_append] at hids hnames
  exact ⟨hids.2.2 _ (List.mem_map_of_mem (hl.label_mem ha)) _ (List.mem_map_of_mem htag),
    hnames.2.2 _ (List.mem_map_of_mem (hl.label_mem ha)) _ (List.mem_map_of_mem htag)⟩

theorem byId_fixed {f : NodeRef} (hf : f ∈ s.fixed) :
    t.next.byId.get? (s.node f).id = some f := by
  rcases h.registered_or_taken hl.walk (fun a ha f hf => (label_ne_fixed hp hl ha hf).1)
    (hp.sublist (List.sublist_append_right _ _)) hf with ⟨hfound, _⟩ | ⟨_, a, ha, htaken⟩
  · exact hfound
  · exact absurd htaken (label_ne_fixed hp hl ha hf).2

/-- A fixed node stays in use. -/
theorem fixed_not_mem_evicted {f : NodeRef} (hf : f ∈ s.fixed) :
    f ∉ (finish d roots t).evicted :=
  Rebuild.not_mem_evicted ((h.node_id hf).symm ▸ byId_fixed h hp hl hf)

/-- Evicted are the nodes of the tree whose labels are not listed any more. -/
theorem mem_evicted_iff : r ∈ (finish d roots t).evicted ↔
    d.InTree r ∧ ∀ l ∈ labels, l.id ≠ (d.node r).id := by
  rw [Rebuild.mem_evicted, h.nodes_iff]
  constructor
  · rintro ⟨hin, hgone⟩
    refine ⟨hin.resolve_left fun hf => ?_, fun l hmem hid => ?_⟩
    · rw [h.node_id hf, byId_fixed h hp hl hf] at hgone
      cases hgone
    · obtain ⟨a, ha, rfl⟩ := hl.exists_adopted hmem
      rw [← hid, hl.byId a ha] at hgone
      cases hgone
  · rintro ⟨hin, hunlisted⟩
    refine ⟨Or.inr hin, Option.eq_none_iff_forall_ne_some.mpr fun x hx => ?_⟩
    rcases hl.walk.mem_next h.keyed (Table.mem_of_get? hx) with hfixed | ⟨a, ha, heq⟩
    · obtain ⟨f, hf, heq⟩ := mem_fixedRegistry hfixed
      rw [h.fixed] at hf
      exact h.apart r hin f hf ((congrArg Prod.fst heq).trans (h.node_id hf))
    · exact hunlisted _ (hl.label_mem ha) (congrArg Prod.fst heq).symm

omit hp in
/-- A label never takes a node that was evicted. -/
theorem adopted_living {a : Adoption} (ha : a ∈ adopted) : (d.node a.node).evicted = false := by
  rcases hl.walk.adopted_node ha with hknown | ⟨_, hnew⟩
  · exact h.living _ (List.mem_map.mpr ⟨_, Table.mem_of_get? hknown, rfl⟩)
  · rw [node_of_not_has hnew]
    rfl

omit hp in
theorem finish_bare (hr : ((finish d roots t).directory.node r).evicted = true) :
    ((finish d roots t).directory.node r).parent = none ∧
      ((finish d roots t).directory.node r).children = .empty ∧
      ((finish d roots t).directory.node r).shown = .empty := by
  by_cases hmem : r ∈ (finish d roots t).evicted
  · rw [Rebuild.node_finish_of_mem hmem (hl.walk.has (Rebuild.has_of_mem_evicted h.keyed hmem))]
    exact ⟨rfl, rfl, rfl⟩
  · -- A node marked before is not in the tree: no label takes it, and it is given no children.
    have hold := ((Rebuild.finish_evicted hl.walk h.keyed).mp hr).resolve_right hmem
    have hne : ∀ a ∈ adopted, a.node ≠ r := by
      rintro a ha rfl
      rw [adopted_living h hl ha] at hold
      cases hold
    have hgiven : ∀ g ∈ given, g.1 ≠ r := by
      intro g hg
      obtain ⟨a, ha, heq⟩ := List.mem_map.mp
        (hl.laid.given_perm.subset (List.mem_map_of_mem hg))
      exact heq ▸ hne a ha
    obtain ⟨shown, hend, hshown⟩ := Rebuild.node_finish_of_not_mem hmem
    rw [hl.walk.node_of_untouched hne hgiven] at hend hshown
    obtain ⟨hparent, hchildren, hbefore⟩ := h.bare r hold
    rw [hend]
    refine ⟨hparent, hchildren, ?_⟩
    rcases hshown with rfl | rfl
    · exact hbefore
    · exact hchildren

/-- A rebuild keeps a directory settled. -/
theorem finish_settled : Settled s (finish d roots t).directory := by
  have hnodes : ∀ r, r ∈ (finish d roots t).directory.registry.nodes ↔
      r ∈ s.fixed ∨ (finish d roots t).directory.InTree r := by
    intro r
    rw [hl.inTree_iff]
    constructor
    · intro hr
      obtain ⟨entry, hentry, rfl⟩ := List.mem_map.mp hr
      rcases hl.walk.mem_next h.keyed hentry with hfixed | ⟨a, ha, rfl⟩
      · obtain ⟨f, hf, rfl⟩ := mem_fixedRegistry hfixed
        exact Or.inl (h.fixed ▸ hf)
      · exact Or.inr ⟨a, ha, rfl⟩
    · rintro (hf | ⟨a, ha, rfl⟩)
      · exact List.mem_map.mpr ⟨_, Table.mem_of_get? (byId_fixed h hp hl hf), rfl⟩
      · exact List.mem_map.mpr ⟨_, Table.mem_of_get? (hl.byId a ha), rfl⟩
  constructor
  case toBased => exact h.finish_based hl.walk fun a ha f hf => (label_ne_fixed hp hl ha hf).1
  case links => exact Rebuild.finish_links hl.walk h.keyed (links_fixedRegistry h.has_fixed)
  case nodes_iff => exact hnodes
  case apart =>
    intro r hr f hf
    obtain ⟨a, ha, rfl⟩ := hl.inTree_iff.mp hr
    rw [Rebuild.finish_id hl.walk h.keyed, (hl.walk.adopted_self h.keyed ha).2]
    exact (label_ne_fixed hp hl ha hf).1
  case living =>
    intro r hr
    refine Bool.eq_false_iff.mpr fun hmarked => ?_
    have hmarked := (Rebuild.finish_evicted hl.walk h.keyed).mp hmarked
    rcases (hnodes r).mp hr with hf | hin
    · have hlive := h.living r ((h.nodes_iff r).mpr (Or.inl hf))
      simp [hlive, fixed_not_mem_evicted h hp hl hf] at hmarked
    · obtain ⟨a, ha, rfl⟩ := hl.inTree_iff.mp hin
      simp [adopted_living h hl ha, hl.not_mem_evicted ha] at hmarked
  case bare => exact fun r => finish_bare h hl

end Turn

end Settled

/-- What one rebuild of a settled directory does. -/
structure Turn (s d : Directory) (labels : List Tag) (b : Rebuilt) : Prop where
  settled : Settled s b.directory
  tree : b.directory.IsTreeOf labels b.directory.nodeOf
  kept : ∀ l ∈ labels, ∀ r, d.registry.byId.get? l.id = some r → b.directory.nodeOf l = r
  created : (b.created.map b.directory.tag).Perm
    (labels.filter fun l => !d.registry.hasId l.id)
  created_new : ∀ r ∈ b.created, ¬d.Has r
  evicted_nodup : b.evicted.Nodup
  evicted_iff : ∀ r, r ∈ b.evicted ↔ d.InTree r ∧ ∀ l ∈ labels, l.id ≠ (d.node r).id
  marked : ∀ r, (b.directory.node r).evicted = true ↔
    (d.node r).evicted = true ∨ r ∈ b.evicted

theorem Settled.turn {s d : Directory} {labels : List Tag} (h : Settled s d)
    (hp : Proper (labels ++ s.fixed.map s.tag)) : Turn s d labels (d.rebuild labels) := by
  obtain ⟨adopted, given, hl⟩ := Rebuild.exists_laying_of_links h.keyed
    (hp.sublist (List.sublist_append_left _ _)) (links_fixedRegistry h.has_fixed)
  obtain ⟨hcreated, hnew⟩ := hl.created
  refine ⟨h.finish_settled hp hl, hl.isTreeOf, fun l hmem r => hl.nodeOf_known hmem, hcreated,
    hnew, ?_, fun r => h.mem_evicted_iff hp hl, fun r => Rebuild.finish_evicted hl.walk h.keyed⟩
  have hnodes : d.registry.nodes.Nodup := by
    refine List.Nodup.of_map (fun r => (d.node r).id) ?_
    have hkeys : d.registry.nodes.map (fun r => (d.node r).id) = d.registry.byId.keys := by
      rw [Registry.nodes, Table.values, List.map_map]
      exact List.map_congr_left fun entry hentry => (h.keyed entry hentry).2
    rw [hkeys]
    exact h.nodup
  exact hnodes.sublist List.filter_sublist

/-! ### Runs of rebuilds -/

/-- The directory after rebuilds from some listings, one after the other. -/
def after (d : Directory) (listings : List (List Tag)) : Directory :=
  listings.foldl (fun d labels => (d.rebuild labels).directory) d

theorem after_append (d : Directory) (past : List (List Tag)) (now : List Tag) :
    d.after (past ++ [now]) = ((d.after past).rebuild now).directory := by
  rw [after, List.foldl_append]
  rfl

section Run

variable {s : Directory} {listings : List (List Tag)}

theorem Settled.after {d : Directory} (h : Settled s d)
    (hp : ∀ labels ∈ listings, Proper (labels ++ s.fixed.map s.tag)) :
    Settled s (d.after listings) := by
  induction listings generalizing d with
  | nil => exact h
  | cons labels listings ih =>
    exact ih (h.turn (hp labels List.mem_cons_self)).settled
      fun more hmore => hp more (List.mem_cons_of_mem _ hmore)

/-- Once marked as evicted a node stays marked, whatever is listed later. -/
theorem Settled.after_marked {d : Directory} (h : Settled s d)
    (hp : ∀ labels ∈ listings, Proper (labels ++ s.fixed.map s.tag)) {r : NodeRef}
    (hr : (d.node r).evicted = true) : ((d.after listings).node r).evicted = true := by
  induction listings generalizing d with
  | nil => exact hr
  | cons labels listings ih =>
    have hturn := h.turn (hp labels List.mem_cons_self)
    exact ih hturn.settled (fun more hmore => hp more (List.mem_cons_of_mem _ hmore))
      ((hturn.marked r).mpr (Or.inl hr))

/-- The tree after a run is that of the last listing, and empty before the first. -/
theorem Fresh.isTreeOf_after (h : s.Fresh)
    (hp : ∀ labels ∈ listings, Proper (labels ++ s.fixed.map s.tag)) :
    (s.after listings).IsTreeOf (listings.getLastD []) (s.after listings).nodeOf := by
  rcases List.eq_nil_or_concat' listings with rfl | ⟨past, now, rfl⟩
  · change s.IsTreeOf [] s.nodeOf
    refine ⟨by simp, fun r => ?_, by simp, fun owner howner => ⟨[], ?_, List.Pairwise.nil, ?_⟩, ?_⟩
    · rw [InTree, h.roots]
      exact ⟨fun hr => absurd hr not_below_nil, by simp⟩
    · simp
    · cases owner with
      | none => exact congrArg Table.entries h.roots
      | some o => exact absurd (howner o rfl) (by simp)
    · exact ⟨h.shown.trans h.roots.symm, by simp⟩
  · have hpast := h.settled.after fun labels hmem => hp labels (List.mem_append_left _ hmem)
    rw [List.getLastD_concat, after_append]
    exact (hpast.turn (hp now List.mem_concat_self)).tree

end Run

/-- The nodes over a run of rebuilds. A label that stays listed keeps its node, under its new name;
nodes are made for the labels with unknown ids, each once; the nodes whose labels are not listed any
more are evicted, and whatever is listed later, they never come back. -/
theorem nodes_over_rebuilds {s : Directory} (hs : s.Fresh) (past : List (List Tag)) (now : List Tag)
    (later : List (List Tag))
    (hp : ∀ labels ∈ past ++ now :: later, Proper (labels ++ s.fixed.map s.tag)) :
    let d := s.after past
    let b := d.rebuild now
    let e := b.directory
    d.IsTreeOf (past.getLastD []) d.nodeOf ∧ e.IsTreeOf now e.nodeOf ∧
      (∀ m ∈ past.getLastD [], ∀ l ∈ now, m.id = l.id → e.nodeOf l = d.nodeOf m) ∧
      (∀ l ∈ now, (e.node (e.nodeOf l)).name = l.name ∧
        (e.node (e.nodeOf l)).evicted = false) ∧
      (b.created.map e.tag).Perm (now.filter fun l => !d.registry.hasId l.id) ∧
      (∀ r ∈ b.created, ¬d.Has r) ∧
      b.evicted.Nodup ∧
      (∀ r, r ∈ b.evicted ↔
        ∃ m ∈ past.getLastD [], d.nodeOf m = r ∧ ∀ l ∈ now, l.id ≠ m.id) ∧
      (∀ r ∈ b.evicted, e.Gone r ∧ (e.after later).Gone r) ∧
      ∀ r, e.InTree r → (e.node r).evicted = false ∧
        (∀ p ∈ (e.node r).parent, (e.node p).evicted = false) ∧
        ∀ c ∈ (e.node r).children.values, (e.node c).evicted = false := by
  have hpast : ∀ labels ∈ past, Proper (labels ++ s.fixed.map s.tag) := fun labels hmem =>
    hp labels (List.mem_append_left _ hmem)
  have hnow := hp now (List.mem_append_right _ List.mem_cons_self)
  have hlater : ∀ labels ∈ later, Proper (labels ++ s.fixed.map s.tag) := fun labels hmem =>
    hp labels (List.mem_append_right _ (List.mem_cons_of_mem _ hmem))
  intro d b e
  have hd : Settled s d := hs.settled.after hpast
  have hturn : Turn s d now b := hd.turn hnow
  have htree : d.IsTreeOf (past.getLastD []) d.nodeOf := hs.isTreeOf_after hpast
  have hid : ∀ m ∈ past.getLastD [], (d.node (d.nodeOf m)).id = m.id := fun m hm =>
    congrArg Tag.id (htree.tag m hm)
  have hliving : ∀ r, e.InTree r → (e.node r).evicted = false := fun r hr =>
    hturn.settled.living r ((hturn.settled.nodes_iff r).mpr (Or.inr hr))
  have hin : ∀ l ∈ now, e.InTree (e.nodeOf l) := fun l hl =>
    (hturn.tree.inTree_iff _).mpr ⟨l, hl, rfl⟩
  refine ⟨htree, hturn.tree, ?_, ?_, hturn.created, hturn.created_new, hturn.evicted_nodup,
    ?_, ?_, ?_⟩
  · intro m hm l hl heq
    have hregistered : d.nodeOf m ∈ d.registry.nodes :=
      (hd.nodes_iff _).mpr (Or.inr ((htree.inTree_iff _).mpr ⟨m, hm, rfl⟩))
    have hknown := hd.mem_nodes_iff.mp hregistered
    rw [hid m hm, heq] at hknown
    exact hturn.kept l hl _ hknown
  · exact fun l hl => ⟨congrArg Tag.name (hturn.tree.tag l hl), hliving _ (hin l hl)⟩
  · intro r
    rw [hturn.evicted_iff, htree.inTree_iff]
    constructor
    · rintro ⟨⟨m, hm, rfl⟩, hunlisted⟩
      exact ⟨m, hm, rfl, fun l hl => hid m hm ▸ hunlisted l hl⟩
    · rintro ⟨m, hm, rfl, hunlisted⟩
      exact ⟨⟨m, hm, rfl⟩, fun l hl => (hid m hm).symm ▸ hunlisted l hl⟩
  · intro r hr
    have hmarked : (e.node r).evicted = true := (hturn.marked r).mpr (Or.inr hr)
    exact ⟨hturn.settled.gone hmarked, (hturn.settled.after hlater).gone
      (hturn.settled.after_marked hlater hmarked)⟩
  · intro r hr
    refine ⟨hliving r hr, fun p hparent => ?_, fun c hc => hliving c (hr.child hc)⟩
    obtain ⟨l, hl, rfl⟩ := (hturn.tree.inTree_iff r).mp hr
    obtain ⟨owner, hangs⟩ := Hangs.exists_owner now l
    rw [hturn.tree.parent l hl owner hangs] at hparent
    obtain ⟨o, ho, rfl⟩ := Option.mem_map.mp hparent
    exact hliving _ (hin o (hangs.owner_mem o ho))

/-- One label takes the name of another, which is deleted and listed again later: the first keeps
its node, the node of the other is gone. -/
theorem nodes_over_rebuilds_relisted :
    let past : List (List Tag) := [[⟨"1", "Work"⟩, ⟨"2", "Home"⟩]]
    let now : List Tag := [⟨"1", "Home"⟩]
    let later : List (List Tag) := [[⟨"2", "Home"⟩, ⟨"1", "Work"⟩]]
    let d := initial.after past
    let b := d.rebuild now
    let e := b.directory
    initial.Fresh ∧
      (∀ labels ∈ past ++ now :: later, Proper (labels ++ initial.fixed.map initial.tag)) ∧
      e.nodeOf ⟨"1", "Home"⟩ = d.nodeOf ⟨"1", "Work"⟩ ∧ d.nodeOf ⟨"2", "Home"⟩ ∈ b.evicted ∧
      (e.after later).Gone (d.nodeOf ⟨"2", "Home"⟩) := by
  intro past now later d b e
  have hp : ∀ labels ∈ past ++ now :: later,
      Proper (labels ++ initial.fixed.map initial.tag) := by
    intro labels hmem
    simp only [past, now, later, List.cons_append, List.nil_append, List.mem_cons,
      List.not_mem_nil, or_false] at hmem
    rcases hmem with rfl | rfl | rfl <;> constructor <;> decide +kernel
  obtain ⟨-, -, hkept, -, -, -, -, hevicted, hgone, -⟩ :=
    nodes_over_rebuilds fresh_initial past now later hp
  have hmem := (hevicted (d.nodeOf ⟨"2", "Home"⟩)).mpr ⟨⟨"2", "Home"⟩, by decide, rfl, by decide⟩
  exact ⟨fresh_initial, hp, hkept ⟨"1", "Work"⟩ (by decide) ⟨"1", "Home"⟩ (by decide) rfl, hmem,
    (hgone _ hmem).2⟩

end Directory

end Mailroom.Label
