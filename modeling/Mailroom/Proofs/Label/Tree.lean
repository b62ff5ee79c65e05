import Mailroom.Proofs.Label.Ending
import Mailroom.Proofs.Label.Layout

/-! The tree after a rebuild. `IsTreeOf` describes the tree of a listing by the names alone: where
each label hangs, under which key and in which order. The main statement says that a rebuild from
any directory leaves exactly this tree, shows it, and registers every listed label, whatever stood
in the nodes before. -/

namespace Mailroom.Label

open Rebuild (depth restOf Adoption Walk Laid IsRow rebuildLevel reveal)

namespace Rebuild

theorem mem_values_of_isRow {labels : List Tag} {adopted : List Adoption} {above : String}
    {member : Tag → Prop} {children : Table String NodeRef}
    (h : IsRow labels adopted above member children) {r : NodeRef} :
    r ∈ children.values ↔ ∃ a ∈ adopted, member a.label ∧ a.node = r := by
  obtain ⟨row, hsub, _, hmem, hentries⟩ := h
  rw [Table.values, hentries, List.map_map]
  constructor
  · intro hr
    obtain ⟨a, ha, rfl⟩ := List.mem_map.mp hr
    exact ⟨a, hsub ha, (hmem a (hsub ha)).mp ha, rfl⟩
  · rintro ⟨a, ha, hmember, rfl⟩
    exact List.mem_map.mpr ⟨a, (hmem a ha).mpr hmember, rfl⟩

/-- A rebuild of a proper listing after all labels took their nodes, with its log; each label is
found by its id and its name. -/
structure Laying (d : Directory) (next : Registry NodeRef) (labels : List Tag)
    (roots : Table String NodeRef) (s : Rebuild) (adopted : List Adoption)
    (given : List (NodeRef × Table String NodeRef)) : Prop where
  keyed : d.Keyed
  proper : Proper labels
  walk : Walk { directory := d, next } adopted given s
  laid : Laid none "" labels roots adopted given
  byId : ∀ a ∈ adopted, s.next.byId.get? a.label.id = some a.node
  byName : ∀ a ∈ adopted, s.next.byName.get? a.label.name = some a.node

section Start

variable {d : Directory} {next : Registry NodeRef} {labels : List Tag} (hd : d.Keyed)
  (hp : Proper labels)
include hd hp

theorem exists_laid (next : Registry NodeRef) : ∃ adopted given,
    Walk { directory := d, next } adopted given
        (rebuildLevel (labels.length + 1) none "" labels { directory := d, next }).2 ∧
      Laid none "" labels
        (rebuildLevel (labels.length + 1) none "" labels { directory := d, next }).1
        adopted given :=
  rebuildLevel_laid (labels.length + 1) none "" labels { directory := d, next }
    (Nat.lt_succ_self _) hp (fun l _ => ⟨l.name, by simp [stem]⟩) hd

theorem exists_laying_of_open (hopen : d.Open next labels) : ∃ adopted given,
    Laying d next labels
      (rebuildLevel (labels.length + 1) none "" labels { directory := d, next }).1
      (rebuildLevel (labels.length + 1) none "" labels { directory := d, next }).2
      adopted given := by
  obtain ⟨adopted, given, hwalk, hlaid⟩ := exists_laid hd hp next
  have h := hwalk.registered hd (hp.perm hlaid.perm) (hopen.subset hlaid.perm.subset)
  exact ⟨adopted, given, hd, hp, hwalk, hlaid, h.byId, h.byName⟩

theorem exists_laying_of_links (hnext : d.Links next) : ∃ adopted given,
    Laying d next labels
      (rebuildLevel (labels.length + 1) none "" labels { directory := d, next }).1
      (rebuildLevel (labels.length + 1) none "" labels { directory := d, next }).2
      adopted given := by
  obtain ⟨adopted, given, hwalk, hlaid⟩ := exists_laid hd hp next
  have hname := fun a ha => hwalk.byName_of_links hd hnext (hp.perm hlaid.perm) (a := a) ha
  refine ⟨adopted, given, hd, hp, hwalk, hlaid, fun a ha => ?_, hname⟩
  rw [← (hwalk.adopted_self hd ha).2]
  exact (hwalk.links hd hnext).found _ _ (hname a ha)

end Start

namespace Laying

variable {d : Directory} {next : Registry NodeRef} {labels : List Tag}
  {roots : Table String NodeRef} {s : Rebuild} {adopted : List Adoption}
  {given : List (NodeRef × Table String NodeRef)} {a b : Adoption} {r : NodeRef}

theorem label_mem (h : Laying d next labels roots s adopted given) (ha : a ∈ adopted) :
    a.label ∈ labels := h.laid.perm.subset (List.mem_map_of_mem ha)

theorem exists_adopted (h : Laying d next labels roots s adopted given) {l : Tag}
    (hl : l ∈ labels) : ∃ a ∈ adopted, a.label = l :=
  List.mem_map.mp (h.laid.perm.mem_iff.mpr hl)

theorem nodup_ids (h : Laying d next labels roots s adopted given) :
    (adopted.map fun a => a.label.id).Nodup := by
  have := (h.proper.perm h.laid.perm).ids
  rwa [List.map_map] at this

theorem injective (h : Laying d next labels roots s adopted given) (ha : a ∈ adopted)
    (hb : b ∈ adopted) (hab : a.node = b.node) : a = b :=
  h.walk.adopted_injective h.keyed h.nodup_ids ha hb hab

theorem nodup_nodes (h : Laying d next labels roots s adopted given) :
    (adopted.map Adoption.node).Nodup :=
  List.Nodup.map_on (fun _ ha _ hb => h.injective ha hb) (h.nodup_ids.of_map _)

theorem has (h : Laying d next labels roots s adopted given) (ha : a ∈ adopted) :
    s.directory.Has a.node := (h.walk.adopted_self h.keyed ha).1

theorem tag (h : Laying d next labels roots s adopted given) (ha : a ∈ adopted) :
    s.directory.tag a.node = a.label := by
  rw [Directory.tag, (h.walk.adopted_self h.keyed ha).2,
    (h.walk.adopted_place h.keyed h.nodup_ids ha).1]

theorem parent (h : Laying d next labels roots s adopted given) (ha : a ∈ adopted) :
    (s.directory.node a.node).parent = a.parent :=
  (h.walk.adopted_place h.keyed h.nodup_ids ha).2

/-- The children of a label's node are the nodes of the labels that hang from it. -/
theorem row (h : Laying d next labels roots s adopted given) (hb : b ∈ adopted) :
    IsRow labels adopted b.label.name (Hangs labels (some b.label))
      (s.directory.node b.node).children := by
  obtain ⟨row, hgiven, hrow⟩ := h.laid.rows b hb
  rwa [h.walk.given_children (h.laid.given_perm.nodup_iff.mpr h.nodup_nodes) hgiven]

/-! ### The nodes of the tree -/

theorem below_iff (h : Laying d next labels roots s adopted given) :
    s.directory.Below roots.values r ↔ ∃ a ∈ adopted, a.node = r := by
  constructor
  · intro hr
    induction hr with
    | here hr =>
      obtain ⟨a, ha, _, rfl⟩ := (mem_values_of_isRow h.laid.children).mp hr
      exact ⟨a, ha, rfl⟩
    | child _ hr ih =>
      obtain ⟨b, hb, rfl⟩ := ih
      obtain ⟨a, ha, _, rfl⟩ := (mem_values_of_isRow (h.row hb)).mp hr
      exact ⟨a, ha, rfl⟩
  · -- By the length of the name: a label hangs from one with a shorter name.
    rintro ⟨a, ha, rfl⟩
    induction hn : a.label.name.length using Nat.strong_induction_on generalizing a with
    | _ n ih =>
      obtain ⟨owner, hangs⟩ := Hangs.exists_owner labels a.label
      cases owner with
      | none => exact .here ((mem_values_of_isRow h.laid.children).mpr ⟨a, ha, hangs, rfl⟩)
      | some o =>
        obtain ⟨b, hb, rfl⟩ := h.exists_adopted hangs.1
        have hbelow := ih b.label.name.length (hn ▸ hangs.2.1.length_lt) b hb rfl
        exact .child hbelow ((mem_values_of_isRow (h.row hb)).mpr ⟨a, ha, hangs, rfl⟩)

/-- How many labels lie below the label of a node. -/
def height (d : Directory) (labels : List Tag) (r : NodeRef) : Nat :=
  (labels.filter fun l => Text.startsWith l.name ((d.node r).name ++ "/")).length

theorem hasHeight (h : Laying d next labels roots s adopted given) :
    s.directory.HasHeight roots.values (height s.directory labels) := by
  intro q hq c hc
  obtain ⟨b, hb, rfl⟩ := h.below_iff.mp hq
  obtain ⟨a, ha, ⟨_, habove, _⟩, rfl⟩ := (mem_values_of_isRow (h.row hb)).mp hc
  have hname : ∀ e ∈ adopted, (s.directory.node e.node).name = e.label.name := fun e he =>
    congrArg Tag.name (h.tag he)
  -- What lies below the child lies below the node too; the child itself only below the node.
  have hfilter : (labels.filter fun l => Text.startsWith l.name (a.label.name ++ "/")) =
      (labels.filter fun l => Text.startsWith l.name (b.label.name ++ "/")).filter
        fun l => Text.startsWith l.name (a.label.name ++ "/") := by
    rw [List.filter_filter]
    refine List.filter_congr fun l _ => ?_
    rw [Bool.eq_iff_iff, Bool.and_eq_true, startsWith_iff_above, startsWith_iff_above]
    exact ⟨fun hal => ⟨hal, habove.trans hal⟩, And.left⟩
  rw [height, height, hname a ha, hname b hb, hfilter]
  refine List.length_filter_lt_length_iff_exists.mpr ⟨a.label, ?_, ?_⟩
  · exact List.mem_filter.mpr ⟨h.label_mem ha, startsWith_iff_above.mpr habove⟩
  · rw [startsWith_iff_above]
    exact Above.irrefl _

theorem length_le (h : Laying d next labels roots s adopted given) :
    labels.length ≤ s.directory.nodes.size := by
  have hindices : (adopted.map fun a => a.node.index).Nodup := by
    have := h.nodup_nodes.map (f := NodeRef.index) fun p q hpq => congrArg NodeRef.mk hpq
    rwa [List.map_map] at this
  have hsub : (adopted.map fun a => a.node.index) ⊆ List.range s.directory.nodes.size := by
    intro i hi
    obtain ⟨a, ha, rfl⟩ := List.mem_map.mp hi
    exact List.mem_range.mpr (h.has ha)
  have := hindices.length_le_of_subset hsub
  rw [List.length_map, List.length_range] at this
  rw [← h.laid.perm.length_eq, List.length_map]
  exact this

theorem height_lt (h : Laying d next labels roots s adopted given) (r : NodeRef) :
    height s.directory labels r < s.directory.nodes.size + 1 :=
  Nat.lt_succ_of_le (Nat.le_trans (List.length_filter_le _ _) h.length_le)

/-! ### The directory at the end -/

theorem not_mem_evicted (h : Laying d next labels roots s adopted given) (ha : a ∈ adopted) :
    a.node ∉ (finish d roots s).evicted := by
  intro hmem
  have hhas := has_of_mem_evicted h.keyed hmem
  have hid : (d.node a.node).id = a.label.id :=
    (h.walk.id_eq hhas).symm.trans (h.walk.adopted_self h.keyed ha).2
  exact Rebuild.not_mem_evicted (hid ▸ h.byId a ha) hmem

/-- The node of a label at the end: as it was laid out, with its children shown. -/
theorem node_finish (h : Laying d next labels roots s adopted given) (ha : a ∈ adopted) :
    (finish d roots s).directory.node a.node =
      { s.directory.node a.node with shown := (s.directory.node a.node).children } := by
  have hcleared : (finish d roots s).directory.node a.node =
      (reveal (s.directory.nodes.size + 1) roots.values s.directory).node a.node :=
    Directory.node_foldl_of_not_mem (h.not_mem_evicted ha) _
  obtain ⟨shown, hnode, _⟩ := node_finish_of_not_mem (h.not_mem_evicted ha)
  have hshown := reveal_shown _ roots.values s.directory h.hasHeight
    (fun q _ => h.height_lt q) a.node (h.below_iff.mpr ⟨a, ha, rfl⟩) (h.has ha)
  rw [← hcleared, hnode] at hshown
  simp only at hshown
  rw [hnode, hshown]

theorem children_finish (h : Laying d next labels roots s adopted given) (ha : a ∈ adopted) :
    ((finish d roots s).directory.node a.node).children =
      (s.directory.node a.node).children := by
  rw [h.node_finish ha]

/-- The nodes made are new and stand for the listed labels whose ids were not known. -/
theorem created (h : Laying d next labels roots s adopted given) :
    ((finish d roots s).created.map (finish d roots s).directory.tag).Perm
        (labels.filter fun l => !d.registry.hasId l.id) ∧
      ∀ r ∈ (finish d roots s).created, ¬d.Has r := by
  have hcreated : (finish d roots s).created =
      (adopted.filter fun a => !d.registry.hasId a.label.id).map Adoption.node := h.walk.created
  constructor
  · have htags : (finish d roots s).created.map (finish d roots s).directory.tag =
        (adopted.map Adoption.label).filter fun l => !d.registry.hasId l.id := by
      rw [hcreated, List.map_map, List.filter_map]
      refine List.map_congr_left fun a ha => ?_
      have ha := (List.mem_filter.mp ha).1
      rw [Function.comp_apply, Directory.tag, h.node_finish ha]
      exact h.tag ha
    rw [htags]
    exact h.laid.perm.filter _
  · intro r hr
    rw [hcreated] at hr
    obtain ⟨a, ha, rfl⟩ := List.mem_map.mp hr
    obtain ⟨ha, hunknown⟩ := List.mem_filter.mp ha
    rcases h.walk.adopted_node ha with hknown | ⟨_, hnew⟩
    · have hknown : d.registry.byId.get? a.label.id = some a.node := hknown
      simp [Registry.hasId, Table.has, hknown] at hunknown
    · exact hnew

theorem inTree_iff (h : Laying d next labels roots s adopted given) :
    (finish d roots s).directory.InTree r ↔ ∃ a ∈ adopted, a.node = r := by
  constructor
  · intro hr
    change (finish d roots s).directory.Below roots.values r at hr
    induction hr with
    | here hr => exact h.below_iff.mp (.here hr)
    | child _ hr ih =>
      obtain ⟨b, hb, rfl⟩ := ih
      rw [h.children_finish hb] at hr
      exact h.below_iff.mp (.child (h.below_iff.mpr ⟨b, hb, rfl⟩) hr)
  · intro hr
    have hbelow := h.below_iff.mpr hr
    change (finish d roots s).directory.Below roots.values r
    clear hr
    induction hbelow with
    | here hr => exact .here hr
    | child hq hr ih =>
      obtain ⟨b, hb, rfl⟩ := h.below_iff.mp hq
      exact .child ih (by rwa [h.children_finish hb])

end Laying

end Rebuild

/-! ### The tree of a listing -/

/-- The key of a label below another, or at the top. -/
def keyUnder : Option Tag → Tag → String
  | none, l => l.name
  | some o, l => restOf o.name l.name

/-- The order of the labels under one owner: by the segments of their keys, then as listed. -/
def Earlier (labels : List Tag) (owner : Option Tag) (l m : Tag) : Prop :=
  depth (keyUnder owner l) < depth (keyUnder owner m) ∨
    depth (keyUnder owner l) = depth (keyUnder owner m) ∧ [l, m].Sublist labels

theorem Earlier.ne {labels : List Tag} (hn : labels.Nodup) {owner : Option Tag} {l m : Tag}
    (h : Earlier labels owner l m) : l ≠ m := by
  rintro rfl
  rcases h with hlt | ⟨-, hsub⟩
  · exact Nat.lt_irrefl _ hlt
  · exact absurd (hn.sublist hsub) (by simp)

theorem Earlier.asymm {labels : List Tag} (hn : labels.Nodup) {owner : Option Tag} {l m : Tag}
    (h : Earlier labels owner l m) : ¬Earlier labels owner m l := by
  rcases h with hlt | ⟨heq, hsub⟩ <;> rintro (hback | ⟨heq', hback⟩)
  · omega
  · omega
  · omega
  · exact pair_sublist_asymm hn hsub hback

/-- The children of a node, or of the top. -/
def Directory.childrenOf (d : Directory) : Option NodeRef → Table String NodeRef
  | none => d.roots
  | some r => (d.node r).children

/-- The tree of a directory is that of the listed labels; `ref` gives the node of each label. -/
structure Directory.IsTreeOf (d : Directory) (labels : List Tag) (ref : Tag → NodeRef) : Prop where
  tag : ∀ l ∈ labels, d.tag (ref l) = l
  inTree_iff : ∀ r, d.InTree r ↔ ∃ l ∈ labels, ref l = r
  parent : ∀ l ∈ labels, ∀ owner, Hangs labels owner l →
    (d.node (ref l)).parent = owner.map ref
  row : ∀ owner, (∀ o ∈ owner, o ∈ labels) → ∃ row : List Tag,
    (∀ l, l ∈ row ↔ l ∈ labels ∧ Hangs labels owner l) ∧ row.Pairwise (Earlier labels owner) ∧
    (d.childrenOf (owner.map ref)).entries = row.map fun l => (keyUnder owner l, ref l)
  shown : d.shown = d.roots ∧ ∀ l ∈ labels, (d.node (ref l)).shown = (d.node (ref l)).children

theorem keyUnder_some {labels : List Tag} (hp : Proper labels) {o l : Tag}
    (h : Hangs labels (some o) l) : o.name ++ "/" ++ keyUnder (some o) l = l.name := by
  obtain ⟨ho, ⟨rest, hrest⟩, _⟩ := h
  rw [← stem_of_ne (hp.nonempty o ho)] at hrest ⊢
  rw [keyUnder, hrest, restOf_stem]

theorem keyUnder_depth {labels : List Tag} (hp : Proper labels) {owner : Option Tag} {l m : Tag}
    (hl : Hangs labels owner l) (hm : Hangs labels owner m) :
    depth (keyUnder owner l) ≤ depth (keyUnder owner m) ↔ depth l.name ≤ depth m.name := by
  cases owner with
  | none => exact Iff.rfl
  | some o =>
    rw [← keyUnder_some hp hl, ← keyUnder_some hp hm, Rebuild.depth_slash, Rebuild.depth_slash]
    omega

theorem keyUnder_inj {labels : List Tag} (hp : Proper labels) {owner : Option Tag} {l m : Tag}
    (hl : l ∈ labels) (hm : m ∈ labels) (hangsl : Hangs labels owner l)
    (hangsm : Hangs labels owner m) (h : keyUnder owner l = keyUnder owner m) : l = m := by
  refine hp.eq_of_name hl hm ?_
  cases owner with
  | none => exact h
  | some o => rw [← keyUnder_some hp hangsl, ← keyUnder_some hp hangsm, h]

/-- Sorting by depth keeps the listing's order among labels of one depth. -/
theorem earlier_of_sublist {labels row : List Tag} (hp : Proper labels) {owner : Option Tag}
    (hrow : row.Sublist (byDepth labels)) (hangs : ∀ l ∈ row, Hangs labels owner l) :
    row.Pairwise (Earlier labels owner) := by
  refine List.pairwise_iff_forall_sublist.mpr fun {l m} hpair => ?_
  have hl := hangs l (hpair.subset (by simp))
  have hm := hangs m (hpair.subset (by simp))
  have hsorted := hpair.trans hrow
  have hle : depth l.name ≤ depth m.name :=
    List.pairwise_iff_forall_sublist.mp (byDepth_pairwise labels) hsorted
  have hle' := (keyUnder_depth hp hl hm).mpr hle
  by_cases hlt : depth (keyUnder owner l) < depth (keyUnder owner m)
  · exact Or.inl hlt
  · have heq : depth (keyUnder owner l) = depth (keyUnder owner m) := by omega
    have hback : depth m.name ≤ depth l.name := (keyUnder_depth hp hm hl).mp (by omega)
    exact Or.inr ⟨heq, byDepth_stable hp.nodup hsorted hback⟩

/-- The node under which a label is registered. -/
def Directory.nodeOf (d : Directory) (l : Tag) : NodeRef :=
  (d.registry.byId.get? l.id).getD default

namespace Rebuild.Laying

variable {d : Directory} {next : Registry NodeRef} {labels : List Tag}
  {roots : Table String NodeRef} {s : Rebuild} {adopted : List Adoption}
  {given : List (NodeRef × Table String NodeRef)} {a : Adoption}

theorem nodeOf_label (h : Laying d next labels roots s adopted given) (ha : a ∈ adopted) :
    (finish d roots s).directory.nodeOf a.label = a.node := by
  change (s.next.byId.get? a.label.id).getD default = a.node
  rw [h.byId a ha, Option.getD_some]

/-- A label that was registered before keeps its node. -/
theorem nodeOf_known (h : Laying d next labels roots s adopted given) {l : Tag} (hl : l ∈ labels)
    {r : NodeRef} (hr : d.registry.byId.get? l.id = some r) :
    (finish d roots s).directory.nodeOf l = r := by
  obtain ⟨a, ha, rfl⟩ := h.exists_adopted hl
  refine (h.nodeOf_label ha).trans ?_
  rcases h.walk.adopted_node ha with hknown | ⟨hunknown, -⟩
  · exact Option.some.inj (hknown.symm.trans hr)
  · exact absurd (hunknown.symm.trans hr) (by simp)

/-- A row of adoptions is a row of labels under their keys. -/
theorem entries_eq (h : Laying d next labels roots s adopted given) {owner : Option Tag}
    {above : String} {children : Table String NodeRef}
    (hkey : ∀ l, keyUnder owner l = restOf above l.name)
    (hrow : IsRow labels adopted above (Hangs labels owner) children) :
    ∃ row : List Tag, (∀ l, l ∈ row ↔ l ∈ labels ∧ Hangs labels owner l) ∧
      row.Pairwise (Earlier labels owner) ∧ children.entries =
        row.map fun l => (keyUnder owner l, (finish d roots s).directory.nodeOf l) := by
  obtain ⟨row, hsub, hsorted, hmem, hentries⟩ := hrow
  have hiff : ∀ l, l ∈ row.map Adoption.label ↔ l ∈ labels ∧ Hangs labels owner l := by
    intro l
    rw [List.mem_map]
    constructor
    · rintro ⟨a, ha, rfl⟩
      exact ⟨h.label_mem (hsub ha), (hmem a (hsub ha)).mp ha⟩
    · rintro ⟨hl, hangs⟩
      obtain ⟨a, ha, rfl⟩ := h.exists_adopted hl
      exact ⟨a, (hmem a ha).mpr hangs, rfl⟩
  refine ⟨row.map Adoption.label, hiff,
    earlier_of_sublist h.proper hsorted fun l hl => ((hiff l).mp hl).2, ?_⟩
  rw [hentries, List.map_map]
  refine List.map_congr_left fun a ha => ?_
  simp only [Function.comp_apply, hkey, h.nodeOf_label (hsub ha)]

theorem isTreeOf (h : Laying d next labels roots s adopted given) :
    (finish d roots s).directory.IsTreeOf labels (finish d roots s).directory.nodeOf := by
  constructor
  case tag =>
    intro l hl
    obtain ⟨a, ha, rfl⟩ := h.exists_adopted hl
    rw [h.nodeOf_label ha, Directory.tag, h.node_finish ha]
    exact h.tag ha
  case inTree_iff =>
    intro r
    rw [h.inTree_iff]
    constructor
    · rintro ⟨a, ha, rfl⟩
      exact ⟨a.label, h.label_mem ha, h.nodeOf_label ha⟩
    · rintro ⟨l, hl, rfl⟩
      obtain ⟨a, ha, rfl⟩ := h.exists_adopted hl
      exact ⟨a, ha, (h.nodeOf_label ha).symm⟩
  case parent =>
    intro l hl owner hangs
    obtain ⟨a, ha, rfl⟩ := h.exists_adopted hl
    rw [h.nodeOf_label ha, h.node_finish ha]
    refine (h.parent ha).trans ?_
    cases owner with
    | none => exact h.laid.parent_top a ha hangs
    | some o =>
      obtain ⟨b, hb, rfl⟩ := h.exists_adopted hangs.1
      rw [Option.map_some, h.nodeOf_label hb]
      exact h.laid.parent_owner a ha b hb hangs
  case row =>
    intro owner howner
    cases owner with
    | none => exact h.entries_eq (fun _ => rfl) h.laid.children
    | some o =>
      obtain ⟨b, hb, rfl⟩ := h.exists_adopted (howner o rfl)
      rw [Option.map_some, h.nodeOf_label hb, Directory.childrenOf, h.children_finish hb]
      exact h.entries_eq (fun _ => rfl) (h.row hb)
  case shown =>
    refine ⟨rfl, fun l hl => ?_⟩
    obtain ⟨a, ha, rfl⟩ := h.exists_adopted hl
    rw [h.nodeOf_label ha, h.node_finish ha]

end Rebuild.Laying

namespace Directory.IsTreeOf

variable {d : Directory} {labels : List Tag} {ref : Tag → NodeRef} {owner : Option Tag} {l : Tag}
  {key : String}

theorem ref_inj (h : d.IsTreeOf labels ref) {m : Tag} (hl : l ∈ labels) (hm : m ∈ labels)
    (heq : ref l = ref m) : l = m := by
  rw [← h.tag l hl, ← h.tag m hm, heq]

/-- The entries of a label's children, or of the top. -/
theorem mem_childrenOf (h : d.IsTreeOf labels ref) (howner : ∀ o ∈ owner, o ∈ labels)
    {r : NodeRef} : (key, r) ∈ (d.childrenOf (owner.map ref)).entries ↔
      ∃ l ∈ labels, Hangs labels owner l ∧ keyUnder owner l = key ∧ ref l = r := by
  obtain ⟨row, hmem, _, hentries⟩ := h.row owner howner
  simp only [hentries, List.mem_map, Prod.mk.injEq, hmem, and_assoc]

/-- Each label is stored once in the tree: with its owner, under its key. -/
theorem stored_iff (h : d.IsTreeOf labels ref) (hp : Proper labels) (hl : l ∈ labels)
    (hangs : Hangs labels owner l) {holder : Option NodeRef} (hholder : ∀ q ∈ holder, d.InTree q) :
    (key, ref l) ∈ (d.childrenOf holder).entries ↔
      holder = owner.map ref ∧ key = keyUnder owner l := by
  constructor
  · intro hmem
    obtain ⟨other, hother, rfl⟩ : ∃ other : Option Tag, (∀ o ∈ other, o ∈ labels) ∧
        other.map ref = holder := by
      cases holder with
      | none => exact ⟨none, by simp, rfl⟩
      | some q =>
        obtain ⟨o, ho, rfl⟩ := (h.inTree_iff q).mp (hholder q rfl)
        exact ⟨some o, by simpa using ho, rfl⟩
    obtain ⟨m, hm, hangsm, rfl, heq⟩ := (h.mem_childrenOf hother).mp hmem
    obtain rfl := h.ref_inj hm hl heq
    rw [hangsm.unique hp hangs]
    exact ⟨rfl, rfl⟩
  · rintro ⟨rfl, rfl⟩
    exact (h.mem_childrenOf hangs.owner_mem).mpr ⟨l, hl, hangs, rfl, rfl⟩

end Directory.IsTreeOf

/-- A rebuild ends by itself: neither the layout of the tree nor what is shown of it depends on how
much deeper the recursion might have gone. -/
structure Directory.Ends (d : Directory) (next : Registry NodeRef) (labels : List Tag) : Prop where
  layout : ∀ fuel > labels.length, rebuildLevel fuel none "" labels { directory := d, next } =
    rebuildLevel (labels.length + 1) none "" labels { directory := d, next }
  showing : ∀ roots s, (roots, s) =
      rebuildLevel (labels.length + 1) none "" labels { directory := d, next } →
    ∀ fuel > s.directory.nodes.size, reveal fuel roots.values s.directory =
      reveal (s.directory.nodes.size + 1) roots.values s.directory

/-- A rebuild of a proper listing ends and leaves the tree of the listing: every label has one node
and one place, below its owner under the rest of its name behind the owner's and a slash, and is
registered under its id and its name. -/
theorem rebuildInto_isTreeOf {d : Directory} {next : Registry NodeRef} {labels : List Tag}
    (hd : d.Keyed) (hp : Proper labels)
    (hnext : ∀ l ∈ labels, next.hasId l.id = false ∧ next.hasName l.name = false) :
    let e := (d.rebuildInto next labels).directory
    d.Ends next labels ∧ e.IsTreeOf labels e.nodeOf ∧
      (∀ l ∈ labels, ∃! owner, Hangs labels owner l) ∧
      (∀ l ∈ labels, ∀ o, Hangs labels (some o) l →
        o.name ++ "/" ++ keyUnder (some o) l = l.name) ∧
      (∀ l ∈ labels, ∃! place : Option NodeRef × String,
        (∀ q ∈ place.1, e.InTree q) ∧ (place.2, e.nodeOf l) ∈ (e.childrenOf place.1).entries) ∧
      ∀ l ∈ labels, e.registry.getById l.id = .ok (e.nodeOf l) ∧
        e.registry.getByName l.name = .ok (e.nodeOf l) := by
  have hopen : d.Open next labels := by
    constructor
    · intro l hl
      simpa [Registry.hasId, Table.has] using (hnext l hl).1
    · intro l hl r hr
      simpa [Registry.hasName, Table.has, hr] using (hnext l hl).2
  obtain ⟨adopted, given, h⟩ := Rebuild.exists_laying_of_open hd hp hopen
  intro e
  have htree : e.IsTreeOf labels e.nodeOf := h.isTreeOf
  refine ⟨⟨?_, ?_⟩, htree, ?_, fun l _ o hangs => keyUnder_some hp hangs, ?_, ?_⟩
  · intro fuel hfuel
    exact Rebuild.rebuildLevel_fuel _ _ _ _ _ _ hfuel (Nat.lt_succ_self _)
  · rintro roots s hs fuel hfuel
    rw [← hs] at h
    exact Rebuild.reveal_fuel _ _ _ _ h.hasHeight
      (fun q _ => Nat.lt_of_le_of_lt (Nat.lt_succ_iff.mp (h.height_lt q)) hfuel)
      fun q _ => h.height_lt q
  · intro l _
    obtain ⟨owner, hangs⟩ := Hangs.exists_owner labels l
    exact ⟨owner, hangs, fun other hother => hother.unique hp hangs⟩
  · intro l hl
    obtain ⟨owner, hangs⟩ := Hangs.exists_owner labels l
    have howner : ∀ q ∈ owner.map e.nodeOf, e.InTree q := by
      intro q hq
      obtain ⟨o, ho, rfl⟩ := Option.mem_map.mp hq
      exact (htree.inTree_iff _).mpr ⟨o, hangs.owner_mem o ho, rfl⟩
    refine ⟨(owner.map e.nodeOf, keyUnder owner l), ⟨howner, ?_⟩, ?_⟩
    · exact (htree.stored_iff hp hl hangs howner).mpr ⟨rfl, rfl⟩
    · rintro ⟨holder, key⟩ ⟨hholder, hmem⟩
      obtain ⟨rfl, rfl⟩ := (htree.stored_iff hp hl hangs hholder).mp hmem
      rfl
  · intro l hl
    obtain ⟨a, ha, rfl⟩ := h.exists_adopted hl
    have hid : e.registry.byId.get? a.label.id = some a.node := h.byId a ha
    have hname : e.registry.byName.get? a.label.name = some a.node := h.byName a ha
    have hnode : e.nodeOf a.label = a.node := h.nodeOf_label ha
    simp only [Registry.getById, Registry.getByName, hid, hname, hnode, and_self]

/-- Three labels, one of them known before under another name, two of them below the third. -/
theorem rebuildInto_isTreeOf_moved :
    let d : Directory :=
      { nodes := #[{ id := "2", name := "Clients", kind := .user }]
        registry := ⟨⟨[("2", ⟨0⟩)]⟩, ⟨[("Clients", ⟨0⟩)]⟩⟩ }
    let labels : List Tag := [⟨"2", "Work/Clients"⟩, ⟨"3", "Work//Old/"⟩, ⟨"1", "Work"⟩]
    let e := (d.rebuildInto .empty labels).directory
    d.Keyed ∧ Proper labels ∧ e.IsTreeOf labels e.nodeOf ∧
      (e.node (e.nodeOf ⟨"3", "Work//Old/"⟩)).parent = some (e.nodeOf ⟨"1", "Work"⟩) := by
  intro d labels e
  have hd : d.Keyed := by simp [d, Directory.Keyed, Directory.Has, Directory.node]
  have hp : Proper labels := ⟨by decide, by decide, by decide⟩
  have htree := (rebuildInto_isTreeOf hd hp (by decide : ∀ l ∈ labels,
    Registry.empty.hasId l.id = false ∧ Registry.empty.hasName l.name = false)).2.1
  exact ⟨hd, hp, htree, htree.parent _ (by decide) (some ⟨"1", "Work"⟩) (by decide)⟩

end Mailroom.Label
