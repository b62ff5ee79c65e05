import Mailroom.Proofs.Label.Level
import Mailroom.Proofs.Label.Pairing

/-! What a rebuild registers. Setting an entry can only drop the former holder of its id or of its
name; when the labels of a listing have ids and names of their own, none of them drops another, so
each is found by id and by name at the end. This holds from any registry whose two maps belong
together (`Links`), and also from any that stands open for the labels (`Open`). -/

namespace Mailroom.Label

/-- A registry whose two maps belong together, as those built by setting entries do: entries stand
under their own ids, and an entry found by a name is found by its id and under no other name. -/
structure Directory.Links (d : Directory) (r : Registry NodeRef) : Prop where
  nodup : r.byName.keys.Nodup
  own_id : ∀ id x, r.byId.get? id = some x → d.Has x ∧ (d.node x).id = id
  found : ∀ name x, r.byName.get? name = some x → r.byId.get? (d.node x).id = some x
  once : ∀ name name' x, r.byName.get? name = some x → r.byName.get? name' = some x → name = name'

namespace Directory.Links

variable {d e : Directory} {r : Registry NodeRef} {k x : NodeRef} {name : String}

theorem empty (d : Directory) : d.Links .empty := by
  constructor <;> simp [Registry.empty, Table.empty, Table.get?, Table.keys]

theorem transfer (h : d.Links r)
    (hids : ∀ x, d.Has x → e.Has x ∧ (e.node x).id = (d.node x).id) : e.Links r := by
  refine ⟨h.nodup, fun id x hx => ?_, fun name x hx => ?_, h.once⟩
  · obtain ⟨hhas, hid⟩ := h.own_id id x hx
    exact ⟨(hids x hhas).1, (hids x hhas).2.trans hid⟩
  · have hx := h.found name x hx
    rwa [(hids x (h.own_id _ x hx).1).2]

theorem paired (h : d.Links r) : Registry.Paired d.tag r :=
  ⟨h.nodup, fun id x hx => (h.own_id id x hx).2, h.found, h.once⟩

theorem byName_set (h : d.Links r) : (r.set d.tag k).byName.get? name = some x ↔
    name = (d.tag k).name ∧ x = k ∨
      name ≠ (d.tag k).name ∧ r.byName.get? name = some x ∧ (d.node x).id ≠ (d.tag k).id :=
  h.paired.byName_set

/-- An entry loses its id when another takes the name under which it is found. -/
theorem byId_set (h : d.Links r) {id : String} : (r.set d.tag k).byId.get? id = some x ↔
    id = (d.tag k).id ∧ x = k ∨
      id ≠ (d.tag k).id ∧ r.byId.get? id = some x ∧ r.byName.get? (d.tag k).name ≠ some x :=
  h.paired.byId_set

theorem set (h : d.Links r) (hk : d.Has k) : d.Links (r.set d.tag k) := by
  have hset := h.paired.set k
  refine ⟨hset.nodup, fun id x hx => ⟨?_, hset.own_id id x hx⟩, hset.found, hset.once⟩
  rcases h.byId_set.mp hx with ⟨_, rfl⟩ | ⟨_, hold, _⟩
  · exact hk
  · exact (h.own_id id x hold).1

section Foldl

variable {ks : List NodeRef} (hks : ∀ k ∈ ks, d.Has k)
include hks

theorem foldl_set (h : d.Links r) : d.Links (ks.foldl (fun r k => r.set d.tag k) r) := by
  induction ks generalizing r with
  | nil => exact h
  | cons k ks ih =>
    exact ih (fun q hq => hks q (List.mem_cons_of_mem _ hq)) (h.set (hks k List.mem_cons_self))

theorem byName_foldl_set_of_ne (h : d.Links r) (hx : r.byName.get? name = some x)
    (hne : ∀ k ∈ ks, (d.tag k).id ≠ (d.node x).id ∧ (d.tag k).name ≠ name) :
    (ks.foldl (fun r k => r.set d.tag k) r).byName.get? name = some x := by
  induction ks generalizing r with
  | nil => exact hx
  | cons k ks ih =>
    obtain ⟨hid, hname⟩ := hne k List.mem_cons_self
    refine ih (fun q hq => hks q (List.mem_cons_of_mem _ hq)) (h.set (hks k List.mem_cons_self)) ?_
      fun q hq => hne q (List.mem_cons_of_mem _ hq)
    exact h.byName_set.mpr (Or.inr ⟨hname.symm, hx, hid.symm⟩)

/-- Entries with ids and names of their own are all found by name when set one after another. -/
theorem byName_foldl_set (h : d.Links r) (hp : Proper (ks.map d.tag)) (hk : k ∈ ks) :
    (ks.foldl (fun r k => r.set d.tag k) r).byName.get? (d.tag k).name = some k := by
  induction ks generalizing r with
  | nil => simp at hk
  | cons q ks ih =>
    have hrest : ∀ p ∈ ks, d.Has p := fun p hp => hks p (List.mem_cons_of_mem _ hp)
    have hset := h.set (hks q List.mem_cons_self)
    rw [List.foldl_cons]
    rcases List.mem_cons.mp hk with rfl | hmem
    · refine hset.byName_foldl_set_of_ne hrest (h.byName_set.mpr (Or.inl ⟨rfl, rfl⟩))
        fun p hmem => ?_
      obtain ⟨hids, -⟩ := List.nodup_cons.mp hp.ids
      obtain ⟨hnames, -⟩ := List.nodup_cons.mp hp.names
      have htag : d.tag p ∈ ks.map d.tag := List.mem_map_of_mem hmem
      exact ⟨fun he => hids (List.mem_map.mpr ⟨_, htag, he⟩),
        fun he => hnames (List.mem_map.mpr ⟨_, htag, he⟩)⟩
    · exact ih hrest hset (hp.sublist (List.sublist_cons_self _ _)) hmem

end Foldl

end Directory.Links

/-- A registry that stands open for some labels: it holds none of their ids, and where it holds one
of their names, then for a node with another id. -/
structure Directory.Open (d : Directory) (next : Registry NodeRef) (labels : List Tag) : Prop where
  ids : ∀ l ∈ labels, next.byId.get? l.id = none
  names : ∀ l ∈ labels, ∀ r, next.byName.get? l.name = some r →
    d.Has r ∧ ∀ m ∈ labels, (d.node r).id ≠ m.id

theorem Directory.Open.subset {d : Directory} {next : Registry NodeRef} {labels few : List Tag}
    (h : d.Open next labels) (hsub : few ⊆ labels) : d.Open next few :=
  ⟨fun l hl => h.ids l (hsub hl), fun l hl r hr =>
    ⟨(h.names l (hsub hl) r hr).1, fun m hm => (h.names l (hsub hl) r hr).2 m (hsub hm)⟩⟩

namespace Rebuild.Walk

variable {s t : Rebuild} {adopted : List Adoption} {given : List (NodeRef × Table String NodeRef)}

/-- A label that takes its node changes no id, so what belongs together before does so after. -/
theorem links_adopt {r : Registry NodeRef} (h : t.directory.Links r) (parent : Option NodeRef)
    (label : Tag) : (t.adopt parent label).2.directory.Links r :=
  h.transfer fun _ hx => ⟨adopt_has hx, (nil.adopt parent label).id_eq hx⟩

/-- What is registered at the end was registered before or is a node that a label took. -/
theorem mem_next (h : Walk s adopted given t) (hs : s.directory.Keyed)
    {entry : String × NodeRef} (hentry : entry ∈ t.next.byId.entries) :
    entry ∈ s.next.byId.entries ∨ ∃ a ∈ adopted, entry = (a.label.id, a.node) := by
  induction h with
  | nil => exact Or.inl hentry
  | @adopt _ _ t parent label hwalk ih =>
    rw [adopt_next] at hentry
    rcases Registry.mem_byId_set hentry with rfl | hold
    · refine Or.inr ⟨_, List.mem_concat_self, ?_⟩
      rw [adopt_tag (hwalk.keyed hs)]
    · exact (ih hold).imp id fun ⟨a, ha, heq⟩ => ⟨a, List.mem_append_left _ ha, heq⟩
  | give _ _ _ _ ih => exact ih hentry

theorem nodup_next (h : Walk s adopted given t) (hnext : s.next.byId.keys.Nodup) :
    t.next.byId.keys.Nodup := by
  induction h with
  | nil => exact hnext
  | adopt parent label _ ih =>
    rw [adopt_next]
    exact Registry.nodup_byId_set ih
  | give _ _ _ _ ih => exact ih

/-- What the labels of a proper listing leave registered. -/
structure Registered (s t : Rebuild) (adopted : List Adoption) : Prop where
  byId : ∀ a ∈ adopted, t.next.byId.get? a.label.id = some a.node
  byName : ∀ a ∈ adopted, t.next.byName.get? a.label.name = some a.node
  other_id : ∀ id, (∀ a ∈ adopted, a.label.id ≠ id) →
    (∀ a ∈ adopted, ∀ r, s.next.byName.get? a.label.name = some r →
      (s.directory.node r).id ≠ id) → t.next.byId.get? id = s.next.byId.get? id
  other_name : ∀ name, (∀ a ∈ adopted, a.label.name ≠ name) →
    t.next.byName.get? name = s.next.byName.get? name

theorem registered (h : Walk s adopted given t) (hs : s.directory.Keyed)
    (hp : Proper (adopted.map Adoption.label))
    (hopen : s.directory.Open s.next (adopted.map Adoption.label)) : Registered s t adopted := by
  induction h with
  | nil => exact ⟨by simp, by simp, fun _ _ _ => rfl, fun _ _ => rfl⟩
  | give r children hr _ ih => exact ⟨(ih hp hopen).byId, (ih hp hopen).byName,
      (ih hp hopen).other_id, (ih hp hopen).other_name⟩
  | @adopt adopted _ t parent label hwalk ih =>
    rw [List.map_append, List.map_cons, List.map_nil] at hp hopen
    have hsub := List.sublist_append_left (adopted.map Adoption.label) [label]
    have hold := ih (hp.sublist hsub) (hopen.subset hsub.subset)
    have hlast : label ∈ adopted.map Adoption.label ++ [label] := List.mem_concat_self
    have hne : ∀ a ∈ adopted, a.label.id ≠ label.id ∧ a.label.name ≠ label.name := fun a ha =>
      hp.last_ne (List.mem_map_of_mem ha)
    have htag := adopt_tag (hwalk.keyed hs) parent label
    have hnext := adopt_next t parent label
    have hself : t.next.byId.get? label.id = none := by
      rw [hold.other_id label.id (fun a ha => (hne a ha).1) fun a ha r hr =>
        (hopen.names a.label (List.mem_append_left _ (List.mem_map_of_mem ha)) r hr).2 label hlast]
      exact hopen.ids label hlast
    -- Whoever held the new name before held it in the registry that the rebuild began with.
    have hformer : ∀ r, t.next.byName.get? label.name = some r →
        s.next.byName.get? label.name = some r ∧
          ((t.adopt parent label).2.directory.tag r).id = (s.directory.node r).id := by
      intro r hr
      rw [hold.other_name label.name fun a ha => (hne a ha).2] at hr
      have hhas := (hopen.names label hlast r hr).1
      exact ⟨hr, (hwalk.adopt parent label).id_eq hhas⟩
    have hnew : t.next.byId.get?
        ((t.adopt parent label).2.directory.tag (t.adopt parent label).1).id = none := by
      rw [htag, hself]
    constructor
    case byId =>
      intro a ha
      rcases List.mem_append.mp ha with hmem | hone
      · rw [hnext, Registry.byId_set_of_ne hnew (by rw [htag]; exact (hne a hmem).1),
          hold.byId a hmem]
        intro former hget
        rw [htag] at hget
        obtain ⟨hstart, hid⟩ := hformer former hget
        rw [hid]
        exact (hopen.names label hlast former hstart).2 a.label
          (List.mem_append_left _ (List.mem_map_of_mem hmem))
      · rw [List.mem_singleton.mp hone, hnext]
        have := Registry.byId_set_self t.next (t.adopt parent label).2.directory.tag
          (t.adopt parent label).1
        rwa [htag] at this
    case byName =>
      intro a ha
      rcases List.mem_append.mp ha with hmem | hone
      · rw [hnext, Registry.byName_set_of_ne hnew (by rw [htag]; exact (hne a hmem).2),
          hold.byName a hmem]
      · rw [List.mem_singleton.mp hone, hnext]
        have := Registry.byName_set_self t.next (t.adopt parent label).2.directory.tag
          (t.adopt parent label).1
        rwa [htag] at this
    case other_id =>
      intro id hid hsquat
      rw [hnext, Registry.byId_set_of_ne hnew]
      · exact hold.other_id id (fun a ha => hid a (List.mem_append_left _ ha))
          fun a ha => hsquat a (List.mem_append_left _ ha)
      · rw [htag]
        exact (hid _ List.mem_concat_self).symm
      · intro former hget
        rw [htag] at hget
        obtain ⟨hstart, heq⟩ := hformer former hget
        rw [heq]
        exact hsquat _ List.mem_concat_self former hstart
    case other_name =>
      intro name hname
      rw [hnext, Registry.byName_set_of_ne hnew]
      · exact hold.other_name name fun a ha => hname a (List.mem_append_left _ ha)
      · rw [htag]
        exact (hname _ List.mem_concat_self).symm

/-- The two maps of a registry belong together after a rebuild as before. -/
theorem links (h : Walk s adopted given t) (hs : s.directory.Keyed)
    (hnext : s.directory.Links s.next) : t.directory.Links t.next := by
  induction h with
  | nil => exact hnext
  | @adopt _ _ t parent label hwalk ih =>
    rw [adopt_next]
    exact (links_adopt ih parent label).set (adopt_self (hwalk.keyed hs) _ _).1
  | @give _ _ t r children hr _ ih =>
    exact ih.transfer fun x hx => ⟨give_has.mpr hx, (nil.give r children hr).id_eq hx⟩

theorem byName_of_links (h : Walk s adopted given t) (hs : s.directory.Keyed)
    (hnext : s.directory.Links s.next) (hp : Proper (adopted.map Adoption.label)) {a : Adoption}
    (ha : a ∈ adopted) : t.next.byName.get? a.label.name = some a.node := by
  induction h with
  | nil => simp at ha
  | give _ _ _ _ ih => exact ih hp ha
  | @adopt adopted _ t parent label hwalk ih =>
    have hlinks := links_adopt (hwalk.links hs hnext) parent label
    rw [adopt_next, hlinks.byName_set, adopt_tag (hwalk.keyed hs)]
    rcases List.mem_append.mp ha with hold | hlast
    · rw [List.map_append] at hp
      obtain ⟨hid, hname⟩ := hp.last_ne (List.mem_map_of_mem hold)
      obtain ⟨hhas, hown⟩ := hwalk.adopted_self hs hold
      refine Or.inr ⟨hname, ih (hp.sublist (List.sublist_append_left _ _)) hold, ?_⟩
      rw [(nil.adopt parent label).id_eq hhas, hown]
      exact hid
    · rw [List.mem_singleton.mp hlast]
      exact Or.inl ⟨rfl, rfl⟩

/-- An entry that no label takes by its id keeps its name and its id, unless a label takes the
name; then it is not found by its id any more. -/
theorem holder (h : Walk s adopted given t) (hs : s.directory.Keyed)
    (hnext : s.directory.Links s.next) {name : String} {f : NodeRef}
    (hf : s.next.byName.get? name = some f)
    (hid : ∀ a ∈ adopted, a.label.id ≠ (s.directory.node f).id) :
    t.next.byName.get? name = some f ∧ (∀ a ∈ adopted, a.label.name ≠ name) ∨
      t.next.byId.get? (s.directory.node f).id = none ∧ ∃ a ∈ adopted, a.label.name = name := by
  have hhas : s.directory.Has f := (hnext.own_id _ f (hnext.found name f hf)).1
  induction h with
  | nil => exact Or.inl ⟨hf, by simp⟩
  | give _ _ _ _ ih => exact ih hid
  | @adopt adopted _ t parent label hwalk ih =>
    have hlinks := links_adopt (hwalk.links hs hnext) parent label
    have hidf : (((t.adopt parent label).2.directory).node f).id = (s.directory.node f).id :=
      (hwalk.adopt parent label).id_eq hhas
    have hlabel : label.id ≠ (s.directory.node f).id := hid _ List.mem_concat_self
    rw [adopt_next]
    rcases ih fun a ha => hid a (List.mem_append_left _ ha) with
      ⟨hheld, hfree⟩ | ⟨hlost, a, ha, hname⟩
    · by_cases hname : label.name = name
      · refine Or.inr ⟨?_, _, List.mem_concat_self, hname⟩
        -- The entry is found under the name that is taken now, so it is the one to lose its id.
        refine Option.eq_none_iff_forall_ne_some.mpr fun x hx => ?_
        rw [hlinks.byId_set, adopt_tag (hwalk.keyed hs)] at hx
        rcases hx with ⟨heq, _⟩ | ⟨_, hx, htaken⟩
        · exact hlabel heq.symm
        · have hfound := hlinks.found name f hheld
          rw [hidf, hx] at hfound
          exact htaken (hname ▸ Option.some.inj hfound ▸ hheld)
      · refine Or.inl ⟨?_, ?_⟩
        · rw [hlinks.byName_set, adopt_tag (hwalk.keyed hs), hidf]
          exact Or.inr ⟨Ne.symm hname, hheld, hlabel.symm⟩
        · intro a ha
          rcases List.mem_append.mp ha with hold | hlast
          · exact hfree a hold
          · rw [List.mem_singleton.mp hlast]
            exact hname
    · refine Or.inr ⟨?_, a, List.mem_append_left _ ha, hname⟩
      refine Option.eq_none_iff_forall_ne_some.mpr fun x hx => ?_
      rw [hlinks.byId_set, adopt_tag (hwalk.keyed hs)] at hx
      rcases hx with ⟨heq, _⟩ | ⟨_, hx, _⟩
      · exact hlabel heq.symm
      · rw [hlost] at hx
        exact absurd hx (by simp)

/-- The nodes made are those of the labels whose ids were not known. -/
theorem created (h : Walk s adopted given t) :
    t.created = s.created ++
      (adopted.filter fun a => !s.directory.registry.hasId a.label.id).map Adoption.node := by
  induction h with
  | nil => simp
  | @adopt _ _ t parent label hwalk ih =>
    rw [adopt_created, List.filter_append, List.map_append, ← List.append_assoc, ← ih]
    simp only [← hwalk.registry, Registry.hasId, Table.has]
    cases hk : t.directory.registry.byId.get? label.id with
    | some r => simp [nodeFor_known hk, hk]
    | none =>
      obtain ⟨hr, _, hcreated⟩ := nodeFor_new hk
      simp [hcreated, adopt_fst, hr, hk]
  | give _ _ _ _ ih => exact ih

end Rebuild.Walk

end Mailroom.Label
