import Mailroom.Label.Rebuild
import Mailroom.Proofs.Data.Table
import Mathlib.Data.List.Nodup

/-! The steps of a rebuild. While the tree is rebuilt only two things happen: a label takes its
node, or a node gets its children. `Walk` runs such steps and logs them, and the facts about a
rebuild's directory are read off the log: which nodes change, which stay, and where every label
went. -/

namespace Mailroom.Label

namespace Directory

/-! ### Nodes by reference -/

/-- A reference that stands for a node. -/
def Has (d : Directory) (r : NodeRef) : Prop := r.index < d.nodes.size

instance (d : Directory) (r : NodeRef) : Decidable (d.Has r) :=
  inferInstanceAs (Decidable (r.index < d.nodes.size))

theorem node_modifyNode_self {d : Directory} {r : NodeRef} (f : Node → Node) (h : d.Has r) :
    (d.modifyNode r f).node r = f (d.node r) := by
  have h : r.index < d.nodes.size := h
  simp only [modifyNode, node, Array.getElem?_modify]
  rw [Array.getElem?_eq_getElem h]
  rfl

theorem node_modifyNode_of_ne {d : Directory} {q r : NodeRef} (f : Node → Node) (h : q ≠ r) :
    (d.modifyNode r f).node q = d.node q := by
  have hindex : r.index ≠ q.index := fun he => h (congrArg NodeRef.mk he).symm
  simp [modifyNode, node, Array.getElem?_modify, hindex]

theorem node_modifyNode_of_not_has {d : Directory} {r : NodeRef} (f : Node → Node)
    (h : ¬d.Has r) : (d.modifyNode r f).node r = d.node r := by
  have hsize : d.nodes.size ≤ r.index := Nat.not_lt.mp h
  simp only [modifyNode, node, Array.getElem?_modify]
  rw [Array.getElem?_eq_none hsize]
  rfl

theorem node_of_not_has {d : Directory} {r : NodeRef} (h : ¬d.Has r) : d.node r = default := by
  have hsize : d.nodes.size ≤ r.index := Nat.not_lt.mp h
  rw [node, Array.getElem?_eq_none hsize]
  rfl

@[simp] theorem has_modifyNode {d : Directory} {q r : NodeRef} (f : Node → Node) :
    (d.modifyNode r f).Has q ↔ d.Has q := by
  simp [Has, modifyNode]

/-- A field that a change of nodes leaves alone is the same in every node afterwards. -/
theorem field_modifyNode {β : Type} {d : Directory} {r : NodeRef} {f : Node → Node}
    (field : Node → β) (h : ∀ n, field (f n) = field n) (q : NodeRef) :
    field ((d.modifyNode r f).node q) = field (d.node q) := by
  simp only [modifyNode, node, Array.getElem?_modify]
  split
  · cases d.nodes[q.index]? <;> simp [h]
  · rfl

/-- Every registered node exists and is registered under its own id. -/
def Keyed (d : Directory) : Prop :=
  ∀ entry ∈ d.registry.byId.entries, d.Has entry.2 ∧ (d.node entry.2).id = entry.1

theorem Keyed.of_get? {d : Directory} (h : d.Keyed) {id : String} {r : NodeRef}
    (hr : d.registry.byId.get? id = some r) : d.Has r ∧ (d.node r).id = id :=
  h _ (Table.mem_of_get? hr)

end Directory

namespace Rebuild

/-! ### One step -/

/-- The directories of a rebuild differ in their nodes only. -/
theorem nodeFor_directory (s : Rebuild) (label : Tag) :
    (s.nodeFor label).2.directory =
      { s.directory with nodes := (s.nodeFor label).2.directory.nodes } := by
  unfold nodeFor
  split <;> rfl

theorem nodeFor_next (s : Rebuild) (label : Tag) : (s.nodeFor label).2.next = s.next := by
  unfold nodeFor
  split <;> rfl

theorem nodeFor_known {s : Rebuild} {label : Tag} {r : NodeRef}
    (h : s.directory.registry.byId.get? label.id = some r) : s.nodeFor label = (r, s) := by
  simp [nodeFor, h]

theorem nodeFor_new {s : Rebuild} {label : Tag}
    (h : s.directory.registry.byId.get? label.id = none) :
    (s.nodeFor label).1 = ⟨s.directory.nodes.size⟩ ∧
      (s.nodeFor label).2.directory.nodes =
        s.directory.nodes.push { id := label.id, name := label.name, kind := .user } ∧
      (s.nodeFor label).2.created = s.created ++ [⟨s.directory.nodes.size⟩] := by
  simp [nodeFor, h]

/-- The nodes that were there before a label takes its node are there afterwards. -/
theorem nodeFor_node {s : Rebuild} {label : Tag} {q : NodeRef}
    (h : s.directory.Has q ∨ q ≠ (s.nodeFor label).1) :
    (s.nodeFor label).2.directory.node q = s.directory.node q := by
  cases hk : s.directory.registry.byId.get? label.id with
  | some r => rw [nodeFor_known hk]
  | none =>
    obtain ⟨hr, hnodes, -⟩ := nodeFor_new hk
    have hne : q.index ≠ s.directory.nodes.size := by
      rcases h with hq | hq
      · have hq : q.index < s.directory.nodes.size := hq
        omega
      · exact fun he => hq (by rw [hr, ← he])
    simp only [Directory.node, hnodes, Array.getElem?_push, if_neg hne]

theorem nodeFor_has {s : Rebuild} {label : Tag} {q : NodeRef} (h : s.directory.Has q) :
    (s.nodeFor label).2.directory.Has q := by
  cases hk : s.directory.registry.byId.get? label.id with
  | some r => rwa [nodeFor_known hk]
  | none =>
    obtain ⟨-, hnodes, -⟩ := nodeFor_new hk
    have h : q.index < s.directory.nodes.size := h
    rw [Directory.Has, hnodes, Array.size_push]
    omega

/-- The node that a label takes exists and has the label's id. -/
theorem nodeFor_self {s : Rebuild} (hs : s.directory.Keyed) (label : Tag) :
    (s.nodeFor label).2.directory.Has (s.nodeFor label).1 ∧
      ((s.nodeFor label).2.directory.node (s.nodeFor label).1).id = label.id := by
  cases hk : s.directory.registry.byId.get? label.id with
  | some r =>
    rw [nodeFor_known hk]
    exact hs.of_get? hk
  | none =>
    obtain ⟨hr, hnodes, -⟩ := nodeFor_new hk
    rw [Directory.Has, Directory.node, hr, hnodes]
    simp

theorem adopt_fst (s : Rebuild) (parent : Option NodeRef) (label : Tag) :
    (s.adopt parent label).1 = (s.nodeFor label).1 := rfl

theorem adopt_created (s : Rebuild) (parent : Option NodeRef) (label : Tag) :
    (s.adopt parent label).2.created = (s.nodeFor label).2.created := rfl

theorem adopt_next (s : Rebuild) (parent : Option NodeRef) (label : Tag) :
    (s.adopt parent label).2.next =
      s.next.set (s.adopt parent label).2.directory.tag (s.adopt parent label).1 := by
  simp only [adopt]
  rw [nodeFor_next]

theorem adopt_directory (s : Rebuild) (parent : Option NodeRef) (label : Tag) :
    (s.adopt parent label).2.directory =
      { s.directory with nodes := (s.adopt parent label).2.directory.nodes } := by
  simp only [adopt, Directory.modifyNode]
  rw [nodeFor_directory]

theorem adopt_has {s : Rebuild} {parent : Option NodeRef} {label : Tag} {q : NodeRef}
    (h : s.directory.Has q) : (s.adopt parent label).2.directory.Has q := by
  simp only [adopt, Directory.has_modifyNode]
  exact nodeFor_has h

theorem adopt_node_of_ne {s : Rebuild} {parent : Option NodeRef} {label : Tag} {q : NodeRef}
    (h : q ≠ (s.adopt parent label).1) :
    (s.adopt parent label).2.directory.node q = s.directory.node q := by
  rw [adopt_fst] at h
  simp only [adopt]
  rw [Directory.node_modifyNode_of_ne _ h]
  exact nodeFor_node (Or.inr h)

/-- The node of a label after the label took it: that of before, with a new name and place. -/
theorem adopt_node_self {s : Rebuild} (hs : s.directory.Keyed) (parent : Option NodeRef)
    (label : Tag) :
    (s.adopt parent label).2.directory.node (s.adopt parent label).1 =
      { (s.nodeFor label).2.directory.node (s.nodeFor label).1 with name := label.name, parent } :=
  Directory.node_modifyNode_self _ (nodeFor_self hs label).1

theorem adopt_self {s : Rebuild} (hs : s.directory.Keyed) (parent : Option NodeRef) (label : Tag) :
    (s.adopt parent label).2.directory.Has (s.adopt parent label).1 ∧
      ((s.adopt parent label).2.directory.node (s.adopt parent label).1).id = label.id := by
  refine ⟨(Directory.has_modifyNode _).mpr (nodeFor_self hs label).1, ?_⟩
  rw [adopt_node_self hs]
  exact (nodeFor_self hs label).2

theorem adopt_tag {s : Rebuild} (hs : s.directory.Keyed) (parent : Option NodeRef) (label : Tag) :
    (s.adopt parent label).2.directory.tag (s.adopt parent label).1 = label := by
  rw [Directory.tag, (adopt_self hs parent label).2, adopt_node_self hs]

/-- A label that takes a node changes no more than a name and a place. -/
theorem adopt_node_of_has {s : Rebuild} {q : NodeRef} (h : s.directory.Has q)
    (parent : Option NodeRef) (label : Tag) :
    ∃ name above, (s.adopt parent label).2.directory.node q =
      { s.directory.node q with name, parent := above } := by
  by_cases heq : q = (s.nodeFor label).1
  · refine ⟨label.name, parent, ?_⟩
    have hfor : (s.nodeFor label).2.directory.node q = s.directory.node q :=
      nodeFor_node (Or.inl h)
    subst heq
    simp only [adopt]
    rw [Directory.node_modifyNode_self _ (nodeFor_has h), hfor]
  · exact ⟨_, _, adopt_node_of_ne heq⟩

theorem nodeFor_evicted (s : Rebuild) (label : Tag) (q : NodeRef) :
    ((s.nodeFor label).2.directory.node q).evicted = (s.directory.node q).evicted := by
  by_cases hq : q = (s.nodeFor label).1
  · cases hk : s.directory.registry.byId.get? label.id with
    | some r => rw [nodeFor_known hk]
    | none =>
      obtain ⟨hr, hnodes, -⟩ := nodeFor_new hk
      have hdefault : (default : Node).evicted = false := rfl
      rw [hq, hr, Directory.node, Directory.node, hnodes]
      simp [hdefault]
  · rw [nodeFor_node (Or.inr hq)]

theorem adopt_evicted (s : Rebuild) (parent : Option NodeRef) (label : Tag) (q : NodeRef) :
    ((s.adopt parent label).2.directory.node q).evicted = (s.directory.node q).evicted :=
  (Directory.field_modifyNode (f := fun n => { n with name := label.name, parent }) Node.evicted
    (fun _ => rfl) q).trans (nodeFor_evicted s label q)

theorem give_has {s : Rebuild} {r q : NodeRef} {children : Table String NodeRef} :
    (s.give r children).directory.Has q ↔ s.directory.Has q := Directory.has_modifyNode _

/-! ### Runs of steps -/

/-- A label that took its node during a rebuild, below a node or at the top. -/
structure Adoption where
  label : Tag
  parent : Option NodeRef
  node : NodeRef

/-- The steps from `start` to another state, with the labels that took their nodes and the
children that nodes got, in the order of the steps. -/
inductive Walk (start : Rebuild) :
    List Adoption → List (NodeRef × Table String NodeRef) → Rebuild → Prop
  | nil : Walk start [] [] start
  | adopt {adopted given s} (parent : Option NodeRef) (label : Tag) :
      Walk start adopted given s →
      Walk start (adopted ++ [⟨label, parent, (s.adopt parent label).1⟩]) given
        (s.adopt parent label).2
  | give {adopted given s} (r : NodeRef) (children : Table String NodeRef) :
      s.directory.Has r → Walk start adopted given s →
      Walk start adopted (given ++ [(r, children)]) (s.give r children)

namespace Walk

variable {s t u : Rebuild} {adopted adopted' : List Adoption}
  {given given' : List (NodeRef × Table String NodeRef)}

theorem trans (h : Walk s adopted given t) (h' : Walk t adopted' given' u) :
    Walk s (adopted ++ adopted') (given ++ given') u := by
  induction h' with
  | nil => simpa using h
  | adopt parent label _ ih =>
    rw [← List.append_assoc]
    exact ih.adopt parent label
  | give r children hr _ ih =>
    rw [← List.append_assoc]
    exact ih.give r children hr

/-- A walk changes nothing of the directory but its nodes. -/
theorem directory (h : Walk s adopted given t) :
    t.directory = { s.directory with nodes := t.directory.nodes } := by
  induction h with
  | nil => rfl
  | @adopt _ _ t parent label _ ih =>
    rw [adopt_directory t parent label, ih]
  | @give _ _ t r children _ _ ih =>
    rw [Rebuild.give, Directory.modifyNode, ih]

theorem registry (h : Walk s adopted given t) : t.directory.registry = s.directory.registry := by
  rw [h.directory]

theorem has (h : Walk s adopted given t) {r : NodeRef} (hr : s.directory.Has r) :
    t.directory.Has r := by
  induction h with
  | nil => exact hr
  | adopt parent label _ ih => exact adopt_has ih
  | give r children _ _ ih => exact give_has.mpr ih

/-- What a walk keeps of every node that was there: all but its name, parent and children. -/
theorem kept (h : Walk s adopted given t) {r : NodeRef} (hr : s.directory.Has r) :
    ∃ name parent children,
      t.directory.node r = { s.directory.node r with name, parent, children } := by
  induction h with
  | nil => exact ⟨_, _, _, rfl⟩
  | @adopt _ _ t parent label hwalk ih =>
    obtain ⟨_, _, children, hnode⟩ := ih
    obtain ⟨name, above, hstep⟩ := adopt_node_of_has (hwalk.has hr) parent label
    exact ⟨name, above, children, by rw [hstep, hnode]⟩
  | @give _ _ t q children hq _ ih =>
    obtain ⟨name, above, own, hnode⟩ := ih
    by_cases heq : r = q
    · subst heq
      exact ⟨name, above, children, by
        rw [Rebuild.give, Directory.node_modifyNode_self _ hq, hnode]⟩
    · exact ⟨name, above, own, by
        rw [Rebuild.give, Directory.node_modifyNode_of_ne _ heq, hnode]⟩

theorem id_eq (h : Walk s adopted given t) {r : NodeRef} (hr : s.directory.Has r) :
    (t.directory.node r).id = (s.directory.node r).id := by
  obtain ⟨_, _, _, hnode⟩ := h.kept hr
  rw [hnode]

theorem keyed (h : Walk s adopted given t) (hs : s.directory.Keyed) : t.directory.Keyed := by
  intro entry hentry
  rw [h.registry] at hentry
  obtain ⟨hhas, hid⟩ := hs entry hentry
  exact ⟨h.has hhas, (h.id_eq hhas).trans hid⟩

/-- No step marks a node as evicted, and new nodes are not. -/
theorem evicted_eq (h : Walk s adopted given t) (r : NodeRef) :
    (t.directory.node r).evicted = (s.directory.node r).evicted := by
  induction h with
  | nil => rfl
  | adopt parent label _ ih => exact (adopt_evicted _ parent label r).trans ih
  | @give _ _ t q children _ _ ih =>
    exact (Directory.field_modifyNode (f := fun n => { n with children }) Node.evicted
      (fun _ => rfl) r).trans ih

/-- A node that no label took changes in its children only. -/
theorem node_of_not_adopted (h : Walk s adopted given t) {r : NodeRef}
    (hr : ∀ a ∈ adopted, a.node ≠ r) :
    ∃ children, t.directory.node r = { s.directory.node r with children } := by
  induction h with
  | nil => exact ⟨_, rfl⟩
  | @adopt _ _ t parent label _ ih =>
    obtain ⟨children, hnode⟩ := ih fun a ha => hr a (List.mem_append_left _ ha)
    have hne : r ≠ (t.adopt parent label).1 := (hr _ List.mem_concat_self).symm
    exact ⟨children, by rw [adopt_node_of_ne hne, hnode]⟩
  | @give _ _ t q children hq _ ih =>
    obtain ⟨own, hnode⟩ := ih hr
    by_cases heq : r = q
    · subst heq
      exact ⟨children, by rw [Rebuild.give, Directory.node_modifyNode_self _ hq, hnode]⟩
    · exact ⟨own, by rw [Rebuild.give, Directory.node_modifyNode_of_ne _ heq, hnode]⟩

/-- A node that neither was taken nor got children stays as it was. -/
theorem node_of_untouched (h : Walk s adopted given t) {r : NodeRef}
    (hr : ∀ a ∈ adopted, a.node ≠ r) (hg : ∀ g ∈ given, g.1 ≠ r) :
    t.directory.node r = s.directory.node r := by
  induction h with
  | nil => rfl
  | @adopt _ _ t parent label _ ih =>
    have hne : r ≠ (t.adopt parent label).1 := (hr _ List.mem_concat_self).symm
    rw [adopt_node_of_ne hne, ih (fun a ha => hr a (List.mem_append_left _ ha)) hg]
  | @give _ _ t q children hq _ ih =>
    have hne : r ≠ q := (hg _ List.mem_concat_self).symm
    rw [Rebuild.give, Directory.node_modifyNode_of_ne _ hne,
      ih hr fun g hmem => hg g (List.mem_append_left _ hmem)]

/-! ### The nodes that labels took -/

theorem adopted_self (h : Walk s adopted given t) (hs : s.directory.Keyed) {a : Adoption}
    (ha : a ∈ adopted) : t.directory.Has a.node ∧ (t.directory.node a.node).id = a.label.id := by
  induction h with
  | nil => simp at ha
  | @adopt _ _ t parent label hwalk ih =>
    have hstep := adopt_self (hwalk.keyed hs) parent label
    rcases List.mem_append.mp ha with hold | hnew
    · obtain ⟨hhas, hid⟩ := ih hold
      refine ⟨adopt_has hhas, ?_⟩
      rw [(Walk.nil.adopt parent label).id_eq hhas, hid]
    · rw [List.mem_singleton.mp hnew]
      exact hstep
  | @give _ _ t q children hq _ ih =>
    obtain ⟨hhas, hid⟩ := ih ha
    refine ⟨give_has.mpr hhas, ?_⟩
    rw [(Walk.nil.give q children hq).id_eq hhas, hid]

/-- Labels with different ids took different nodes. -/
theorem adopted_injective (h : Walk s adopted given t) (hs : s.directory.Keyed)
    (hids : (adopted.map fun a => a.label.id).Nodup) {a b : Adoption} (ha : a ∈ adopted)
    (hb : b ∈ adopted) (hab : a.node = b.node) : a = b := by
  refine List.inj_on_of_nodup_map hids ha hb ?_
  rw [← (h.adopted_self hs ha).2, ← (h.adopted_self hs hb).2, hab]

/-- A label takes the known node with its id, or a new one. -/
theorem adopted_node (h : Walk s adopted given t) {a : Adoption} (ha : a ∈ adopted) :
    s.directory.registry.byId.get? a.label.id = some a.node ∨
      s.directory.registry.byId.get? a.label.id = none ∧ ¬s.directory.Has a.node := by
  induction h with
  | nil => simp at ha
  | @adopt _ _ t parent label hwalk ih =>
    rcases List.mem_append.mp ha with hold | hnew
    · exact ih hold
    · rw [List.mem_singleton.mp hnew, adopt_fst]
      simp only [← hwalk.registry]
      cases hk : t.directory.registry.byId.get? label.id with
      | some r => exact Or.inl (by rw [nodeFor_known hk])
      | none =>
        refine Or.inr ⟨rfl, fun hhas => ?_⟩
        have hlt : (t.nodeFor label).1.index < t.directory.nodes.size := hwalk.has hhas
        rw [(nodeFor_new hk).1] at hlt
        exact Nat.lt_irrefl _ hlt
  | give _ _ _ _ ih => exact ih ha

/-- The name and the place of a node that a label took. -/
theorem adopted_place (h : Walk s adopted given t) (hs : s.directory.Keyed)
    (hids : (adopted.map fun a => a.label.id).Nodup) {a : Adoption} (ha : a ∈ adopted) :
    (t.directory.node a.node).name = a.label.name ∧
      (t.directory.node a.node).parent = a.parent := by
  induction h with
  | nil => simp at ha
  | @adopt earlier _ t parent label hwalk ih =>
    have hstep : Walk s _ _ _ := hwalk.adopt parent label
    rw [List.map_append, List.nodup_append] at hids
    rcases List.mem_append.mp ha with hold | hnew
    · have hne : a.node ≠ (t.adopt parent label).1 := by
        intro he
        have hid := (hstep.adopted_self hs ha).2
        rw [he, (adopt_self (hwalk.keyed hs) parent label).2] at hid
        exact hids.2.2 a.label.id (List.mem_map_of_mem hold) label.id (by simp) hid.symm
      rw [adopt_node_of_ne hne]
      exact ih hids.1 hold
    · rw [List.mem_singleton.mp hnew, adopt_node_self (hwalk.keyed hs)]
      exact ⟨rfl, rfl⟩
  | @give _ _ t q children hq _ ih =>
    have hname := Directory.field_modifyNode (d := t.directory) (r := q)
      (f := fun n => { n with children }) Node.name (fun _ => rfl) a.node
    have hparent := Directory.field_modifyNode (d := t.directory) (r := q)
      (f := fun n => { n with children }) Node.parent (fun _ => rfl) a.node
    rw [Rebuild.give, hname, hparent]
    exact ih hids ha

theorem given_has (h : Walk s adopted given t) {g : NodeRef × Table String NodeRef}
    (hg : g ∈ given) : t.directory.Has g.1 := by
  induction h with
  | nil => simp at hg
  | adopt parent label _ ih => exact adopt_has (ih hg)
  | give q children hq _ ih =>
    rw [give_has]
    rcases List.mem_append.mp hg with hold | hnew
    · exact ih hold
    · rwa [List.mem_singleton.mp hnew]

/-- A node that got children once has them at the end. -/
theorem given_children (h : Walk s adopted given t) (hg : (given.map Prod.fst).Nodup)
    {r : NodeRef} {children : Table String NodeRef} (hr : (r, children) ∈ given) :
    (t.directory.node r).children = children := by
  induction h with
  | nil => simp at hr
  | adopt parent label hwalk ih =>
    obtain ⟨_, _, hstep⟩ := adopt_node_of_has (hwalk.given_has hr) parent label
    rw [hstep]
    exact ih hg hr
  | @give _ _ t q own hq _ ih =>
    rw [List.map_append, List.nodup_append] at hg
    rcases List.mem_append.mp hr with hold | hnew
    · have hne : r ≠ q := hg.2.2 r (List.mem_map.mpr ⟨_, hold, rfl⟩) q (by simp)
      rw [Rebuild.give, Directory.node_modifyNode_of_ne _ hne]
      exact ih hg.1 hold
    · obtain ⟨rfl, rfl⟩ := Prod.mk.inj (List.mem_singleton.mp hnew)
      rw [Rebuild.give, Directory.node_modifyNode_self _ hq]

end Walk

end Rebuild

end Mailroom.Label
