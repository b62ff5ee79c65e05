import Mailroom.Proofs.Label.Fixed
import Mailroom.Proofs.Label.Layout

/-! Listings that take the name of a fixed node. Nothing is asked of the names here: they may be
empty or listed twice. A rebuild still consists of steps, and a label whose name has no slash is
placed at the top. So a listing with a fixed node's name puts that node out of use, and no other
listing does. -/

namespace Mailroom.Label

open Rebuild (Adoption Walk Level finish restOf rebuildLevel)

namespace Rebuild

/-! ### The steps of any rebuild -/

theorem owner?_eq_none {level : Level} {rest : String} (h : '/' ∉ rest.toList) :
    level.owner? rest = none := by
  rw [Level.owner?, Option.map_eq_none_iff, List.find?_eq_none]
  intro entry _ hstarts
  obtain ⟨more, hrest⟩ := startsWith_iff_above.mp hstarts
  exact h (hrest ▸ by simp)

/-- A level under way, whatever is listed: its children exist, and the labels below them are among
the listed ones. -/
structure Placed (start : Rebuild) (labels : List Tag) (state : Rebuild × Level)
    (adopted : List Adoption) : Prop where
  walk : Walk start adopted [] state.1
  listed : ∀ a ∈ adopted, a.label ∈ labels
  has : ∀ r ∈ state.2.children.values, state.1.directory.Has r
  below : ∀ r low, state.2.below.get? r = some low → low ⊆ labels

namespace Placed

variable {start : Rebuild} {labels : List Tag} {state : Rebuild × Level} {adopted : List Adoption}

theorem wait (h : Placed start labels state adopted) {l : Tag} (hl : l ∈ labels) (r : NodeRef) :
    Placed start labels
      (state.1, { state.2 with below := state.2.below.modify r (· ++ [l]) }) adopted := by
  refine ⟨h.walk, h.listed, h.has, fun q low hq => ?_⟩
  rw [Table.get?_modify] at hq
  split at hq
  · obtain ⟨old, hold, rfl⟩ := Option.map_eq_some_iff.mp hq
    exact List.append_subset.mpr ⟨h.below q old hold, by simpa using hl⟩
  · exact h.below q low hq

theorem join (h : Placed start labels state adopted) (hstart : start.directory.Keyed) {l : Tag}
    (hl : l ∈ labels) (parent : Option NodeRef) (rest : String) :
    Placed start labels ((state.1.adopt parent l).2,
        ⟨state.2.children.put rest (state.1.adopt parent l).1,
          state.2.below.put (state.1.adopt parent l).1 []⟩)
      (adopted ++ [⟨l, parent, (state.1.adopt parent l).1⟩]) := by
  refine ⟨h.walk.adopt parent l, fun a ha => ?_, fun r hr => ?_, fun q low hq => ?_⟩
  · rcases List.mem_append.mp ha with hold | hnew
    · exact h.listed a hold
    · rwa [List.mem_singleton.mp hnew]
  · obtain ⟨entry, hentry, rfl⟩ := List.mem_map.mp hr
    rcases Table.mem_entries_put hentry with rfl | hold
    · exact (adopt_self (h.walk.keyed hstart) parent l).1
    · exact adopt_has (h.has _ (List.mem_map_of_mem hold))
  · rw [Table.get?_put] at hq
    split at hq
    · rw [← Option.some.inj hq]
      exact List.nil_subset _
    · exact h.below q low hq

theorem foldl_place (hstart : start.directory.Keyed) (parent : Option NodeRef)
    (todo : List (Tag × String)) :
    ∀ (state : Rebuild × Level) (adopted : List Adoption), Placed start labels state adopted →
      (∀ x ∈ todo, x.1 ∈ labels) → ∃ more,
        Placed start labels (todo.foldl (place parent) state) (adopted ++ more) ∧
          ∀ x ∈ todo, '/' ∉ x.2.toList → ∃ a ∈ more, a.label = x.1 := by
  induction todo with
  | nil => exact fun _ _ h _ => ⟨[], by simpa using h, by simp⟩
  | cons x todo ih =>
    intro state adopted h hlisted
    obtain ⟨l, rest⟩ := x
    have hl : l ∈ labels := hlisted _ List.mem_cons_self
    have hrest : ∀ x ∈ todo, x.1 ∈ labels := fun x hx => hlisted x (List.mem_cons_of_mem _ hx)
    cases howner : state.2.owner? rest with
    | some r =>
      rw [List.foldl_cons, place_of_owner howner]
      obtain ⟨more, hplaced, htop⟩ := ih _ _ (h.wait hl r) hrest
      refine ⟨more, hplaced, fun x hx hslash => ?_⟩
      rcases List.mem_cons.mp hx with rfl | hmem
      · rw [owner?_eq_none hslash] at howner
        cases howner
      · exact htop x hmem hslash
    | none =>
      rw [List.foldl_cons, place_of_top howner]
      obtain ⟨more, hplaced, htop⟩ := ih _ _ (h.join hstart hl parent rest) hrest
      refine ⟨⟨l, parent, (state.1.adopt parent l).1⟩ :: more, by simpa using hplaced,
        fun x hx hslash => ?_⟩
      rcases List.mem_cons.mp hx with rfl | hmem
      · exact ⟨_, List.mem_cons_self, rfl⟩
      · obtain ⟨a, ha, heq⟩ := htop x hmem hslash
        exact ⟨a, List.mem_cons_of_mem _ ha, heq⟩

end Placed

theorem sift_placed {s : Rebuild} (hs : s.directory.Keyed) (parent : Option NodeRef)
    (above : String) (labels : List Tag) : ∃ adopted,
      Placed s labels (sift parent above labels s) adopted ∧
        ∀ l ∈ labels, '/' ∉ (restOf above l.name).toList → ∃ a ∈ adopted, a.label = l := by
  have hstart : Placed s labels (s, {}) [] :=
    ⟨Walk.nil, by simp, by simp [Table.values, Table.empty], by simp [Table.get?, Table.empty]⟩
  have hsorted := List.mergeSort_perm (labels.map fun l => (l, restOf above l.name))
    fun a b => depth a.2 ≤ depth b.2
  obtain ⟨adopted, hplaced, htop⟩ := Placed.foldl_place hs parent _ _ _ hstart fun x hx => by
    obtain ⟨l, hl, rfl⟩ := List.mem_map.mp (hsorted.subset hx)
    exact hl
  refine ⟨adopted, hplaced, fun l hl => htop (l, restOf above l.name) ?_⟩
  exact hsorted.mem_iff.mpr (List.mem_map_of_mem hl)

/-- The levels below some nodes are made of steps when each level is. -/
theorem foldl_give_walk {fuel : Nat} {labels : List Tag} {level : Level}
    (ih : ∀ (parent : Option NodeRef) (above : String) (low : List Tag) (s : Rebuild),
      s.directory.Keyed → ∃ adopted given,
        Walk s adopted given (rebuildLevel fuel parent above low s).2 ∧
          ∀ a ∈ adopted, a.label ∈ low)
    (hbelow : ∀ r low, level.below.get? r = some low → low ⊆ labels) (refs : List NodeRef) :
    ∀ s : Rebuild, s.directory.Keyed → (∀ r ∈ refs, s.directory.Has r) → ∃ adopted given,
      Walk s adopted given (refs.foldl (fun t r =>
          let sub := rebuildLevel fuel (some r) (t.directory.node r).name
            ((level.below.get? r).getD []) t
          sub.2.give r sub.1) s) ∧ ∀ a ∈ adopted, a.label ∈ labels := by
  induction refs with
  | nil => exact fun s _ _ => ⟨[], [], Walk.nil, by simp⟩
  | cons r refs ihrefs =>
    intro s hs hhas
    have hlow : (level.below.get? r).getD [] ⊆ labels := by
      cases hget : level.below.get? r with
      | none => exact List.nil_subset _
      | some low => exact hbelow r low hget
    obtain ⟨adopted, given, hwalk, hlisted⟩ :=
      ih (some r) (s.directory.node r).name ((level.below.get? r).getD []) s hs
    have hstep := hwalk.give r (rebuildLevel fuel (some r) (s.directory.node r).name
      ((level.below.get? r).getD []) s).1 (hwalk.has (hhas r List.mem_cons_self))
    obtain ⟨more, given', hrest, hmore⟩ := ihrefs _ (hstep.keyed hs) fun q hq =>
      hstep.has (hhas q (List.mem_cons_of_mem _ hq))
    refine ⟨adopted ++ more, _, hstep.trans hrest, fun a ha => ?_⟩
    rcases List.mem_append.mp ha with hold | hnew
    · exact hlow (hlisted a hold)
    · exact hmore a hnew

/-- A level is made of steps when the levels below are: listed labels take nodes, also every label
whose key has no slash, and nodes get children. -/
theorem rebuildLevel_walk_succ {fuel : Nat}
    (ih : ∀ (parent : Option NodeRef) (above : String) (low : List Tag) (s : Rebuild),
      s.directory.Keyed → ∃ adopted given,
        Walk s adopted given (rebuildLevel fuel parent above low s).2 ∧
          ∀ a ∈ adopted, a.label ∈ low)
    (parent : Option NodeRef) (above : String) (labels : List Tag) (s : Rebuild)
    (hs : s.directory.Keyed) : ∃ adopted given,
      Walk s adopted given (rebuildLevel (fuel + 1) parent above labels s).2 ∧
        (∀ a ∈ adopted, a.label ∈ labels) ∧
          ∀ l ∈ labels, '/' ∉ (restOf above l.name).toList → ∃ a ∈ adopted, a.label = l := by
  obtain ⟨tops, hplaced, htop⟩ := sift_placed hs parent above labels
  obtain ⟨more, given, hrest, hmore⟩ :=
    foldl_give_walk ih hplaced.below _ _ (hplaced.walk.keyed hs) hplaced.has
  rw [rebuildLevel_succ]
  refine ⟨tops ++ more, [] ++ given, hplaced.walk.trans hrest, fun a ha => ?_,
    fun l hl hslash => ?_⟩
  · exact (List.mem_append.mp ha).elim (hplaced.listed a) (hmore a)
  · obtain ⟨a, ha, heq⟩ := htop l hl hslash
    exact ⟨a, List.mem_append_left _ ha, heq⟩

theorem rebuildLevel_walk (fuel : Nat) : ∀ (parent : Option NodeRef) (above : String)
    (labels : List Tag) (s : Rebuild), s.directory.Keyed → ∃ adopted given,
      Walk s adopted given (rebuildLevel fuel parent above labels s).2 ∧
        ∀ a ∈ adopted, a.label ∈ labels := by
  induction fuel with
  | zero => exact fun _ _ _ s _ => ⟨[], [], Walk.nil, by simp⟩
  | succ fuel ih =>
    intro parent above labels s hs
    obtain ⟨adopted, given, hwalk, hlisted, _⟩ := rebuildLevel_walk_succ ih parent above labels s hs
    exact ⟨adopted, given, hwalk, hlisted⟩

end Rebuild

namespace Directory

/-! ### One rebuild -/

/-- A listing with a label of a fixed node's name. -/
def Takes (s : Directory) (labels : List Tag) (f : NodeRef) : Prop :=
  ∃ l ∈ labels, l.name = (s.node f).name

instance (s : Directory) (labels : List Tag) (f : NodeRef) : Decidable (s.Takes labels f) :=
  inferInstanceAs (Decidable (∃ l ∈ labels, l.name = (s.node f).name))

/-- Fixed nodes with ids and names of their own, and without a slash in their names. -/
structure Plain (s : Directory) : Prop where
  proper : Proper (s.fixed.map s.tag)
  slash : ∀ f ∈ s.fixed, '/' ∉ (s.node f).name.toList

/-- Labels with other ids than the fixed nodes have. -/
def Free (s : Directory) (labels : List Tag) : Prop :=
  ∀ l ∈ labels, ∀ f ∈ s.fixed, l.id ≠ (s.node f).id

/-- A rebuild puts a fixed node out of use when a listed label takes its name, and leaves the others
registered. -/
theorem Based.rebuild {s d : Directory} {labels : List Tag} (h : Based s d) (hs : s.Plain)
    (hid : s.Free labels) : Based s (d.rebuild labels).directory ∧ ∀ f ∈ s.fixed,
      ((d.rebuild labels).directory.registry.byId.get? (s.node f).id = some f ↔
        ¬s.Takes labels f) ∧
      (f ∈ (d.rebuild labels).evicted ↔
        d.registry.byId.get? (s.node f).id = some f ∧ s.Takes labels f) ∧
      (((d.rebuild labels).directory.node f).evicted = true ↔
        (d.node f).evicted = true ∨ f ∈ (d.rebuild labels).evicted) := by
  obtain ⟨adopted, given, hwalk, hlisted, htop⟩ :=
    Rebuild.rebuildLevel_walk_succ (Rebuild.rebuildLevel_walk labels.length) none "" labels
      { directory := d, next := d.fixedRegistry } h.keyed
  have hids : ∀ a ∈ adopted, ∀ f ∈ s.fixed, a.label.id ≠ (s.node f).id := fun a ha =>
    hid a.label (hlisted a ha)
  refine ⟨h.finish_based hwalk hids, fun f hf => ?_⟩
  have htaken : (∃ a ∈ adopted, a.label.name = (s.node f).name) ↔ s.Takes labels f := by
    constructor
    · rintro ⟨a, ha, hname⟩
      exact ⟨a.label, hlisted a ha, hname⟩
    · rintro ⟨l, hl, hname⟩
      have hslash : '/' ∉ (restOf "" l.name).toList := by
        rw [show restOf "" l.name = l.name from rfl, hname]
        exact hs.slash f hf
      obtain ⟨a, ha, rfl⟩ := htop l hl hslash
      exact ⟨a, ha, hname⟩
  have hend := h.registered_or_taken hwalk hids hs.proper hf
  rw [htaken] at hend
  refine ⟨?_, ?_, Rebuild.finish_evicted hwalk h.keyed⟩
  · rcases hend with ⟨hfound, hfree⟩ | ⟨hlost, htakes⟩
    · exact iff_of_true hfound hfree
    · exact iff_of_false (fun hfound => absurd (hlost.symm.trans hfound) (by simp))
        (not_not.mpr htakes)
  · refine Rebuild.mem_evicted.trans ?_
    rw [h.mem_nodes_iff, h.node_id hf]
    refine and_congr_right fun _ => ?_
    rcases hend with ⟨hfound, hfree⟩ | ⟨hlost, htakes⟩
    · exact iff_of_false (fun hlost => absurd (hlost.symm.trans hfound) (by simp)) hfree
    · exact iff_of_true hlost htakes

/-! ### Runs -/

/-- How the fixed nodes stand after some listings: a fixed node is registered unless the last
listing takes its name, and marked as evicted since any listing did. -/
structure Stands (s d : Directory) (listings : List (List Tag)) : Prop where
  based : Based s d
  registered : ∀ f ∈ s.fixed, d.registry.byId.get? (s.node f).id = some f ↔
    ∀ last ∈ listings.getLast?, ¬s.Takes last f
  marked : ∀ f ∈ s.fixed, (d.node f).evicted = true ↔ ∃ labels ∈ listings, s.Takes labels f

theorem Fresh.stands {s : Directory} (h : s.Fresh) : Stands s s [] := by
  refine ⟨h.based, fun f hf => iff_of_true (h.byId hf) (by simp), fun f _ => ?_⟩
  rw [h.living f]
  simp

namespace Stands

variable {s d e : Directory} {listings : List (List Tag)} {labels : List Tag}

/-- A rebuild evicts the fixed nodes whose names are taken now and were not in the last listing. -/
theorem mem_evicted_iff (h : Stands s d listings) (hs : s.Plain) (hid : s.Free labels)
    {f : NodeRef} (hf : f ∈ s.fixed) : f ∈ (d.rebuild labels).evicted ↔
      s.Takes labels f ∧ ∀ last ∈ listings.getLast?, ¬s.Takes last f := by
  rw [((h.based.rebuild hs hid).2 f hf).2.1, h.registered f hf, and_comm]

theorem rebuild (h : Stands s d listings) (hs : s.Plain) (hid : s.Free labels) :
    Stands s (d.rebuild labels).directory (listings ++ [labels]) := by
  obtain ⟨hbased, hfixed⟩ := h.based.rebuild hs hid
  refine ⟨hbased, fun f hf => ?_, fun f hf => ?_⟩
  · rw [(hfixed f hf).1, List.getLast?_concat]
    simp
  · rw [(hfixed f hf).2.2, h.mem_evicted_iff hs hid hf, h.marked f hf]
    simp only [List.mem_append, List.mem_singleton, or_and_right, exists_or, exists_eq_left]
    -- A name that is taken again was taken in the last listing, and the node marked then.
    constructor
    · exact fun hmarked => hmarked.imp id And.left
    · rintro (hbefore | hnow)
      · exact Or.inl hbefore
      · by_cases hlast : ∀ last ∈ listings.getLast?, ¬s.Takes last f
        · exact Or.inr ⟨hnow, hlast⟩
        · simp only [not_forall, not_not] at hlast
          obtain ⟨last, hmem, htakes⟩ := hlast
          exact Or.inl ⟨last, List.mem_of_getLast? hmem, htakes⟩

/-- Nothing else matters than the fixed nodes, the registry, and the ids, names and marks of nodes.
-/
theorem transfer (h : Stands s d listings) (hfixed : e.fixed = d.fixed)
    (hregistry : e.registry = d.registry)
    (hnode : ∀ r, d.Has r → e.Has r ∧ e.tag r = d.tag r ∧
      (e.node r).evicted = (d.node r).evicted) : Stands s e listings := by
  refine ⟨h.based.transfer hfixed hregistry fun r hr => ⟨(hnode r hr).1, (hnode r hr).2.1⟩,
    fun f hf => ?_, fun f hf => ?_⟩
  · rw [hregistry]
    exact h.registered f hf
  · rw [(hnode f (h.based.fixed_tag f hf).1).2.2]
    exact h.marked f hf

end Stands

end Directory

end Mailroom.Label
