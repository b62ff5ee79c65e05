import Mailroom.Proofs.Label.Takeover

/-! Listed labels are found. Whatever the names in a listing are, a rebuild gives a node to every
label of it: of two children with one key the later takes the place of the earlier, but labels come
by their depths, and nothing waits below the earlier one yet. So a label whose name no other has is
found by its id afterwards, and its node is in use. -/

namespace Mailroom.Label

open Rebuild (Adoption Walk Level depth finish place rebuildLevel restOf sift)

namespace Rebuild

/-! ### One level, whatever the names are -/

/-- A level after some labels, each with its key: every one of them has a node or waits below a
child with a key above its own. -/
structure Housed (seen : List (Tag × String)) (adopted : List Adoption) (level : Level) : Prop where
  housed : ∀ x ∈ seen, (∃ a ∈ adopted, a.label = x.1) ∨
    ∃ entry ∈ level.children.entries, ∃ low, level.below.get? entry.2 = some low ∧ x.1 ∈ low
  below : ∀ entry ∈ level.children.entries, ∃ low, level.below.get? entry.2 = some low ∧
    low.Sublist (seen.map Prod.fst) ∧ ∀ l ∈ low, ∃ rest, (l, rest) ∈ seen ∧ Above entry.1 rest
  listed : ∀ a ∈ adopted, a.label ∈ seen.map Prod.fst
  taken : ∀ entry ∈ level.children.entries, ∃ a ∈ adopted, a.node = entry.2
  key : ∀ e ∈ level.children.entries, ∀ e' ∈ level.children.entries, e.2 = e'.2 → e.1 = e'.1

theorem housed_nil : Housed [] [] {} := by
  constructor <;> simp [Table.empty]

theorem exists_owner {level : Level} {rest : String} {r : NodeRef}
    (h : level.owner? rest = some r) :
    ∃ entry ∈ level.children.entries, entry.2 = r ∧ Above entry.1 rest := by
  obtain ⟨entry, hfind, rfl⟩ := Option.map_eq_some_iff.mp h
  have hstarts := List.find?_some hfind
  exact ⟨entry, List.mem_of_find?_eq_some hfind, rfl, startsWith_iff_above.mp hstarts⟩

namespace Housed

variable {seen : List (Tag × String)} {adopted : List Adoption} {level : Level} {x : Tag × String}

theorem sublist_concat {low : List Tag} (h : low.Sublist (seen.map Prod.fst)) :
    low.Sublist ((seen ++ [x]).map Prod.fst) := by
  rw [List.map_append]
  exact h.trans (List.sublist_append_left _ _)

theorem listed_concat (h : Housed seen adopted level) {a : Adoption} (ha : a ∈ adopted) :
    a.label ∈ (seen ++ [x]).map Prod.fst := by
  rw [List.map_append]
  exact List.mem_append_left _ (h.listed a ha)

/-- A label waits below the child whose key lies above its own. -/
theorem wait (h : Housed seen adopted level) {owner : String × NodeRef}
    (howner : owner ∈ level.children.entries) (habove : Above owner.1 x.2) :
    Housed (seen ++ [x]) adopted
      { level with below := level.below.modify owner.2 (· ++ [x.1]) } := by
  have hget : ∀ r low, level.below.get? r = some low →
      (level.below.modify owner.2 (· ++ [x.1])).get? r =
        some (if r = owner.2 then low ++ [x.1] else low) := by
    intro r low hr
    rw [Table.get?_modify, hr]
    split <;> rfl
  constructor
  case housed =>
    intro y hy
    rcases List.mem_append.mp hy with hold | hone
    · rcases h.housed y hold with hnode | ⟨entry, hentry, low, hlow, hmem⟩
      · exact Or.inl hnode
      · refine Or.inr ⟨entry, hentry, _, hget _ _ hlow, ?_⟩
        split
        · exact List.mem_append_left _ hmem
        · exact hmem
    · obtain ⟨low, hlow, -⟩ := h.below owner howner
      refine Or.inr ⟨owner, howner, _, hget _ _ hlow, ?_⟩
      rw [if_pos rfl, List.mem_singleton.mp hone]
      exact List.mem_concat_self
  case below =>
    intro entry hentry
    obtain ⟨low, hlow, hsub, hkeys⟩ := h.below entry hentry
    refine ⟨_, hget _ _ hlow, ?_⟩
    split
    case isTrue hsame =>
      refine ⟨?_, fun l hl => ?_⟩
      · rw [List.map_append]
        exact hsub.append (List.Sublist.refl _)
      · rcases List.mem_append.mp hl with hold | hone
        · obtain ⟨rest, hrest, hover⟩ := hkeys l hold
          exact ⟨rest, List.mem_append_left _ hrest, hover⟩
        · rw [List.mem_singleton.mp hone, h.key entry hentry owner howner hsame]
          exact ⟨x.2, List.mem_concat_self, habove⟩
    case isFalse =>
      refine ⟨sublist_concat hsub, fun l hl => ?_⟩
      obtain ⟨rest, hrest, hover⟩ := hkeys l hl
      exact ⟨rest, List.mem_append_left _ hrest, hover⟩
  case listed => exact fun a ha => h.listed_concat ha
  case taken => exact h.taken
  case key => exact h.key

/-- A label becomes a child. The child that had its key before has nothing below it: what waits
there would be deeper than this label. -/
theorem join (h : Housed seen adopted level) (hdepth : ∀ y ∈ seen, depth y.2 ≤ depth x.2)
    {r : NodeRef} (hr : ∀ a ∈ adopted, a.node ≠ r) (parent : Option NodeRef) :
    Housed (seen ++ [x]) (adopted ++ [⟨x.1, parent, r⟩])
      ⟨level.children.put x.2 r, level.below.put r []⟩ := by
  have hother : ∀ entry ∈ level.children.entries, entry.2 ≠ r := by
    rintro entry hentry rfl
    obtain ⟨a, ha, hnode⟩ := h.taken entry hentry
    exact hr a ha hnode
  have hget : ∀ entry ∈ level.children.entries,
      (level.below.put r []).get? entry.2 = level.below.get? entry.2 := fun entry hentry => by
    rw [Table.get?_put, if_neg (hother entry hentry)]
  constructor
  case housed =>
    intro y hy
    rcases List.mem_append.mp hy with hold | hone
    · rcases h.housed y hold with ⟨a, ha, hlabel⟩ | ⟨entry, hentry, low, hlow, hmem⟩
      · exact Or.inl ⟨a, List.mem_append_left _ ha, hlabel⟩
      · refine Or.inr ⟨entry, Table.mem_put_of_ne r hentry fun hkey => ?_, low,
          (hget entry hentry).trans hlow, hmem⟩
        obtain ⟨low', hlow', -, hkeys⟩ := h.below entry hentry
        obtain rfl := Option.some.inj (hlow.symm.trans hlow')
        obtain ⟨rest, hrest, hover⟩ := hkeys _ hmem
        have hdeep := hover.depth_lt
        rw [hkey] at hdeep
        exact Nat.not_lt.mpr (hdepth _ hrest) hdeep
    · rw [List.mem_singleton.mp hone]
      exact Or.inl ⟨_, List.mem_concat_self, rfl⟩
  case below =>
    intro entry hentry
    rcases Table.mem_entries_put hentry with rfl | hold
    · exact ⟨[], Table.get?_put_self _ _ _, List.nil_sublist _, by simp⟩
    · obtain ⟨low, hlow, hsub, hkeys⟩ := h.below entry hold
      refine ⟨low, (hget entry hold).trans hlow, sublist_concat hsub, fun l hl => ?_⟩
      obtain ⟨rest, hrest, hover⟩ := hkeys l hl
      exact ⟨rest, List.mem_append_left _ hrest, hover⟩
  case listed =>
    intro a ha
    rcases List.mem_append.mp ha with hold | hone
    · exact h.listed_concat hold
    · rw [List.mem_singleton.mp hone, List.map_append]
      exact List.mem_concat_self
  case taken =>
    intro entry hentry
    rcases Table.mem_entries_put hentry with rfl | hold
    · exact ⟨_, List.mem_concat_self, rfl⟩
    · obtain ⟨a, ha, hnode⟩ := h.taken entry hold
      exact ⟨a, List.mem_append_left _ ha, hnode⟩
  case key =>
    intro e he e' he' hsame
    rcases Table.mem_entries_put he with rfl | hold <;>
      rcases Table.mem_entries_put he' with rfl | hold'
    · rfl
    · exact absurd hsame.symm (hother e' hold')
    · exact absurd hsame (hother e hold)
    · exact h.key e hold e' hold' hsame

theorem foldl_place {start : Rebuild} (hstart : start.directory.Keyed) (parent : Option NodeRef)
    (todo : List (Tag × String)) :
    ∀ (seen : List (Tag × String)) (adopted : List Adoption) (s : Rebuild) (level : Level),
      Walk start adopted [] s → Housed seen adopted level →
      (((seen ++ todo).map Prod.fst).map Tag.id).Nodup →
      (seen ++ todo).Pairwise (fun x y => depth x.2 ≤ depth y.2) →
      ∃ all, Walk start all [] (todo.foldl (place parent) (s, level)).1 ∧
        Housed (seen ++ todo) all (todo.foldl (place parent) (s, level)).2 := by
  induction todo with
  | nil =>
    intro seen adopted s level hwalk h _ _
    exact ⟨adopted, hwalk, by simpa using h⟩
  | cons x todo ih =>
    intro seen adopted s level hwalk h hids hsorted
    rw [List.append_cons] at hids hsorted ⊢
    cases howner : level.owner? x.2 with
    | some r =>
      obtain ⟨owner, hentry, rfl, habove⟩ := exists_owner howner
      rw [List.foldl_cons, place_of_owner howner]
      exact ih _ _ _ _ hwalk (h.wait hentry habove) hids hsorted
    | none =>
      have hstep := hwalk.adopt parent x.1
      -- A node has the id of the label that takes it, and the labels have different ids.
      have hfresh : ∀ a ∈ adopted, a.node ≠ (s.adopt parent x.1).1 := by
        intro a ha hnode
        have hold := (hstep.adopted_self hstart (List.mem_append_left _ ha)).2
        have hself := (hstep.adopted_self hstart List.mem_concat_self).2
        rw [List.map_append, List.map_append, List.map_append, List.map_append] at hids
        refine (List.nodup_append.mp (List.nodup_append.mp hids).1).2.2 a.label.id
          (List.mem_map_of_mem (h.listed a ha)) x.1.id (by simp) ?_
        rw [← hold, ← hself, hnode]
      have hdepth : ∀ y ∈ seen, depth y.2 ≤ depth x.2 := fun y hy =>
        (List.pairwise_append.mp (List.pairwise_append.mp hsorted).1).2.2 y hy x (by simp)
      rw [List.foldl_cons, place_of_top howner]
      exact ih _ _ _ _ hstep (h.join hdepth hfresh parent) hids hsorted

end Housed

theorem sift_housed {s : Rebuild} (hs : s.directory.Keyed) (parent : Option NodeRef)
    (above : String) {labels : List Tag} (hids : (labels.map Tag.id).Nodup) :
    ∃ seen adopted, (seen.map Prod.fst).Perm labels ∧
      Walk s adopted [] (sift parent above labels s).1 ∧
      Housed seen adopted (sift parent above labels s).2 := by
  let keyed := labels.map fun l => (l, restOf above l.name)
  have hperm : (keyed.mergeSort fun a b => depth a.2 ≤ depth b.2).Perm keyed :=
    List.mergeSort_perm _ _
  have hlabels := hperm.map Prod.fst
  rw [show keyed.map Prod.fst = labels by
    rw [List.map_map]; exact List.map_id labels] at hlabels
  have hsorted : (keyed.mergeSort fun a b => depth a.2 ≤ depth b.2).Pairwise
      fun a b => depth a.2 ≤ depth b.2 := by
    refine (List.pairwise_mergeSort (fun a b c => ?_) (fun a b => ?_) keyed).imp of_decide_eq_true
    · simpa using Nat.le_trans
    · simpa using Nat.le_total _ _
  obtain ⟨all, hwalk, hhoused⟩ := Housed.foldl_place hs parent _ [] [] s {} Walk.nil housed_nil
    ((hlabels.map Tag.id).nodup_iff.mpr hids) hsorted
  exact ⟨_, all, hlabels, hwalk, hhoused⟩

/-! ### All levels -/

/-- The levels below some nodes give a node to what waits there when each level does. -/
theorem foldl_give_covers {fuel : Nat} {level : Level}
    (ih : ∀ (parent : Option NodeRef) (above : String) (low : List Tag) (s : Rebuild),
      low.length < fuel → (low.map Tag.id).Nodup → s.directory.Keyed → ∃ adopted given,
        Walk s adopted given (rebuildLevel fuel parent above low s).2 ∧
          ∀ l, l ∈ adopted.map Adoption.label ↔ l ∈ low) (refs : List NodeRef) :
    ∀ s : Rebuild, s.directory.Keyed → (∀ r ∈ refs, s.directory.Has r) →
      (∀ r ∈ refs, ((level.below.get? r).getD []).length < fuel ∧
        (((level.below.get? r).getD []).map Tag.id).Nodup) → ∃ adopted given,
      Walk s adopted given (refs.foldl (fun t r =>
          let sub := rebuildLevel fuel (some r) (t.directory.node r).name
            ((level.below.get? r).getD []) t
          sub.2.give r sub.1) s) ∧
        ∀ l, l ∈ adopted.map Adoption.label ↔ ∃ r ∈ refs, l ∈ (level.below.get? r).getD [] := by
  induction refs with
  | nil => exact fun s _ _ _ => ⟨[], [], Walk.nil, by simp⟩
  | cons r refs ihrefs =>
    intro s hs hhas hlow
    obtain ⟨hshort, hids⟩ := hlow r List.mem_cons_self
    obtain ⟨adopted, given, hwalk, hcovers⟩ :=
      ih (some r) (s.directory.node r).name _ s hshort hids hs
    have hstep := hwalk.give r (rebuildLevel fuel (some r) (s.directory.node r).name
      ((level.below.get? r).getD []) s).1 (hwalk.has (hhas r List.mem_cons_self))
    obtain ⟨more, given', hrest, hmore⟩ := ihrefs _ (hstep.keyed hs)
      (fun q hq => hstep.has (hhas q (List.mem_cons_of_mem _ hq)))
      fun q hq => hlow q (List.mem_cons_of_mem _ hq)
    refine ⟨adopted ++ more, _, hstep.trans hrest, fun l => ?_⟩
    rw [List.map_append, List.mem_append, hcovers, hmore]
    simp only [List.mem_cons, exists_eq_or_imp]

/-- Every label of a level gets a node, there or further down. -/
theorem rebuildLevel_covers (fuel : Nat) : ∀ (parent : Option NodeRef) (above : String)
    (labels : List Tag) (s : Rebuild), labels.length < fuel → (labels.map Tag.id).Nodup →
    s.directory.Keyed → ∃ adopted given,
      Walk s adopted given (rebuildLevel fuel parent above labels s).2 ∧
        ∀ l, l ∈ adopted.map Adoption.label ↔ l ∈ labels := by
  induction fuel with
  | zero => exact fun _ _ _ _ h => absurd h (Nat.not_lt_zero _)
  | succ fuel ih =>
    intro parent above labels s hfuel hids hs
    obtain ⟨seen, tops, hperm, hwalk, hhoused⟩ := sift_housed hs parent above hids
    have hlow : ∀ r ∈ (sift parent above labels s).2.children.values,
        ∃ low, (sift parent above labels s).2.below.get? r = some low ∧
          low.Sublist (seen.map Prod.fst) := by
      intro r hr
      obtain ⟨entry, hentry, rfl⟩ := List.mem_map.mp hr
      obtain ⟨low, hget, hsub, -⟩ := hhoused.below entry hentry
      exact ⟨low, hget, hsub⟩
    have hhas : ∀ r ∈ (sift parent above labels s).2.children.values,
        (sift parent above labels s).1.directory.Has r := by
      intro r hr
      obtain ⟨entry, hentry, rfl⟩ := List.mem_map.mp hr
      obtain ⟨a, ha, hnode⟩ := hhoused.taken entry hentry
      exact hnode ▸ (hwalk.adopted_self hs ha).1
    obtain ⟨more, given, hrest, hmore⟩ := foldl_give_covers ih _ _ (hwalk.keyed hs) hhas
      fun r hr => ⟨lt_of_lt_of_le (sift_below_lt hr) (Nat.lt_succ_iff.mp hfuel), by
        obtain ⟨low, hget, hsub⟩ := hlow r hr
        rw [hget]
        exact ((hperm.map Tag.id).nodup_iff.mpr hids).sublist (hsub.map Tag.id)⟩
    refine ⟨tops ++ more, _, by rw [rebuildLevel_succ]; exact hwalk.trans hrest, fun l => ?_⟩
    rw [List.map_append, List.mem_append, hmore, ← hperm.mem_iff]
    constructor
    · rintro (htop | ⟨r, hr, hl⟩)
      · obtain ⟨a, ha, rfl⟩ := List.mem_map.mp htop
        exact hhoused.listed a ha
      · obtain ⟨low, hget, hsub⟩ := hlow r hr
        rw [hget] at hl
        exact hsub.subset hl
    · intro hl
      obtain ⟨x, hx, rfl⟩ := List.mem_map.mp hl
      rcases hhoused.housed x hx with ⟨a, ha, hlabel⟩ | ⟨entry, hentry, low, hget, hmem⟩
      · exact Or.inl (List.mem_map.mpr ⟨a, ha, hlabel⟩)
      · refine Or.inr ⟨entry.2, List.mem_map_of_mem hentry, ?_⟩
        rw [hget]
        exact hmem

/-- A label whose id and name no other label has stays registered under both. -/
theorem Walk.byName_of_own {s t : Rebuild} {adopted : List Adoption}
    {given : List (NodeRef × Table String NodeRef)} (h : Walk s adopted given t)
    (hs : s.directory.Keyed) (hnext : s.directory.Links s.next) {l : Tag}
    (hl : l ∈ adopted.map Adoption.label)
    (hown : ∀ a ∈ adopted, a.label.id = l.id ∨ a.label.name = l.name → a.label = l) :
    ∃ r, t.next.byName.get? l.name = some r ∧ t.directory.Has r ∧
      (t.directory.node r).id = l.id := by
  induction h with
  | nil => simp at hl
  | give r children hr hwalk ih =>
    obtain ⟨q, hq, hhas, hid⟩ := ih hl hown
    exact ⟨q, hq, give_has.mpr hhas, ((nil.give r children hr).id_eq hhas).trans hid⟩
  | @adopt adopted _ t parent label hwalk ih =>
    have hlinks := links_adopt (hwalk.links hs hnext) parent label
    have hself := adopt_self (hwalk.keyed hs) parent label
    rw [adopt_next]
    by_cases hlast : label = l
    · subst hlast
      refine ⟨_, hlinks.byName_set.mpr (Or.inl ⟨?_, rfl⟩), hself⟩
      rw [adopt_tag (hwalk.keyed hs)]
    · obtain ⟨hid, hname⟩ := not_or.mp (mt (hown _ List.mem_concat_self) hlast)
      have hold : l ∈ adopted.map Adoption.label := by
        rw [List.map_append, List.mem_append] at hl
        exact hl.resolve_right fun hone => hlast (List.mem_singleton.mp hone).symm
      obtain ⟨q, hq, hhas, hown⟩ := ih hold fun a ha => hown a (List.mem_append_left _ ha)
      have hkept := ((nil.adopt parent label).id_eq hhas).trans hown
      refine ⟨q, hlinks.byName_set.mpr (Or.inr ⟨?_, hq, ?_⟩), adopt_has hhas, hkept⟩
      · rw [adopt_tag (hwalk.keyed hs)]
        exact Ne.symm hname
      · rw [adopt_tag (hwalk.keyed hs), hkept]
        exact Ne.symm hid

end Rebuild

namespace Directory

/-! ### One rebuild -/

/-- Registered nodes are in use, the fixed ones aside. -/
def Living (d : Directory) : Prop :=
  ∀ r ∈ d.registry.nodes, r ∈ d.fixed ∨ (d.node r).evicted = false

variable {s d : Directory} {labels : List Tag}

theorem Fresh.living_registered (h : s.Fresh) : s.Living := fun r _ => Or.inr (h.living r)

namespace Living

variable (hliving : d.Living)
include hliving

theorem finish {roots : Table String NodeRef} {t : Rebuild} {adopted : List Adoption}
    {given : List (NodeRef × Table String NodeRef)} (hd : d.Keyed)
    (hw : Walk { directory := d, next := d.fixedRegistry } adopted given t) :
    (finish d roots t).directory.Living := by
  intro r hr
  obtain ⟨⟨id, _⟩, hentry, rfl⟩ := List.mem_map.mp hr
  rcases hw.mem_next hd hentry with hfixed | ⟨a, ha, heq⟩
  · obtain ⟨f, hf, heq⟩ := mem_fixedRegistry hfixed
    obtain ⟨-, rfl⟩ := Prod.mk.inj heq
    exact Or.inl ((Rebuild.finish_fixed hw).symm ▸ hf)
  · obtain ⟨rfl, rfl⟩ := Prod.mk.inj heq
    -- A node that a label took was registered before or is new, and it is registered now.
    have hbefore : a.node ∈ d.fixed ∨ (d.node a.node).evicted = false := by
      rcases hw.adopted_node ha with hknown | ⟨-, hnew⟩
      · exact hliving _ (List.mem_map.mpr ⟨_, Table.mem_of_get? hknown, rfl⟩)
      · rw [node_of_not_has hnew]
        exact Or.inr rfl
    have hnow : a.node ∉ (Rebuild.finish d roots t).evicted := by
      intro hevicted
      have hid := (hw.id_eq (Rebuild.has_of_mem_evicted hd hevicted)).symm.trans
        (hw.adopted_self hd ha).2
      have hnone := (Rebuild.mem_evicted.mp hevicted).2
      rw [hid] at hnone
      exact Table.get?_eq_none_iff.mp hnone (List.mem_map_of_mem hentry)
    refine hbefore.imp (fun hf => (Rebuild.finish_fixed hw).symm ▸ hf) fun hlive => ?_
    refine Bool.eq_false_iff.mpr fun hmarked => ?_
    rcases (Rebuild.finish_evicted hw hd).mp hmarked with hold | hevicted
    · simp [hlive] at hold
    · exact hnow hevicted

theorem rebuild (hd : d.Keyed) (labels : List Tag) : (d.rebuild labels).directory.Living := by
  obtain ⟨adopted, given, hwalk, -⟩ := Rebuild.rebuildLevel_walk (labels.length + 1) none ""
    labels { directory := d, next := d.fixedRegistry } hd
  rw [Directory.rebuild, Rebuild.rebuildInto_eq]
  exact hliving.finish hd hwalk

/-- A listed label whose name no other listed label has is found by its id and by its name, and its
node is in use. -/
theorem rebuild_finds (h : Based s d) (hids : (labels.map Tag.id).Nodup) {l : Tag} (hl : l ∈ labels)
    (hname : ∀ m ∈ labels, m.name = l.name → m = l) (hfree : ∀ f ∈ s.fixed, l.id ≠ (s.node f).id) :
    ∃ r, (d.rebuild labels).directory.registry.byId.get? l.id = some r ∧
      (d.rebuild labels).directory.registry.byName.get? l.name = some r ∧
      ((d.rebuild labels).directory.node r).evicted = false := by
  obtain ⟨adopted, given, hwalk, hcovers⟩ := Rebuild.rebuildLevel_covers (labels.length + 1) none ""
    labels { directory := d, next := d.fixedRegistry } (Nat.lt_succ_self _) hids h.keyed
  have hlinks := links_fixedRegistry h.has_fixed
  have hown : ∀ a ∈ adopted, a.label.id = l.id ∨ a.label.name = l.name → a.label = l := by
    intro a ha hsame
    have hlabel := (hcovers a.label).mp (List.mem_map_of_mem ha)
    exact hsame.elim (List.inj_on_of_nodup_map hids hlabel hl) (hname _ hlabel)
  obtain ⟨r, hfound, hhas, hid⟩ :=
    hwalk.byName_of_own h.keyed hlinks ((hcovers l).mpr hl) hown
  have hbyId := (hwalk.links h.keyed hlinks).found _ r hfound
  rw [hid] at hbyId
  rw [Directory.rebuild, Rebuild.rebuildInto_eq]
  refine ⟨r, hbyId, hfound, ((hliving.finish h.keyed hwalk) r
    (List.mem_map.mpr ⟨_, Table.mem_of_get? hbyId, rfl⟩)).resolve_left fun hf => ?_⟩
  rw [Rebuild.finish_fixed hwalk, h.fixed] at hf
  refine hfree r hf ?_
  rw [← hid, hwalk.id_eq (h.fixed_tag r hf).1, h.node_id hf]

end Living

end Directory

end Mailroom.Label
