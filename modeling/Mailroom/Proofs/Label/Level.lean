import Mailroom.Proofs.Label.Path
import Mailroom.Proofs.Label.Walk

/-! One level of the tree. The labels of a level are taken in the order of their depths, so every
label that lies above another is seen first. `Sifted` says what the labels seen so far have become:
those without a label above them are the children, and every other label waits below the one child
that lies above it. -/

namespace Mailroom.Label

open Rebuild (depth restOf Level Adoption Walk)

/-- Listed labels as the mail service has them: no id and no name twice, and no name empty. -/
structure Proper (labels : List Tag) : Prop where
  ids : (labels.map Tag.id).Nodup
  names : (labels.map Tag.name).Nodup
  nonempty : ∀ l ∈ labels, l.name ≠ ""

namespace Proper

variable {labels few : List Tag}

theorem sublist (h : Proper labels) (hsub : few.Sublist labels) : Proper few :=
  ⟨h.ids.sublist (hsub.map _), h.names.sublist (hsub.map _),
    fun l hl => h.nonempty l (hsub.subset hl)⟩

theorem perm (h : Proper labels) (hperm : few.Perm labels) : Proper few :=
  ⟨(hperm.map _).nodup_iff.mpr h.ids, (hperm.map _).nodup_iff.mpr h.names,
    fun l hl => h.nonempty l (hperm.subset hl)⟩

theorem nodup (h : Proper labels) : labels.Nodup := h.ids.of_map _

theorem eq_of_id (h : Proper labels) {l m : Tag} (hl : l ∈ labels) (hm : m ∈ labels)
    (hid : l.id = m.id) : l = m := List.inj_on_of_nodup_map h.ids hl hm hid

theorem eq_of_name (h : Proper labels) {l m : Tag} (hl : l ∈ labels) (hm : m ∈ labels)
    (hname : l.name = m.name) : l = m := List.inj_on_of_nodup_map h.names hl hm hname

theorem last_ne {l m : Tag} (h : Proper (labels ++ [m])) (hl : l ∈ labels) :
    l.id ≠ m.id ∧ l.name ≠ m.name := by
  have hids := h.ids
  have hnames := h.names
  rw [List.map_append, List.nodup_append] at hids hnames
  exact ⟨hids.2.2 _ (List.mem_map_of_mem hl) _ (by simp),
    hnames.2.2 _ (List.mem_map_of_mem hl) _ (by simp)⟩

end Proper

/-- The listed labels in the order of their depths; labels of one depth stay as they were. -/
def byDepth (labels : List Tag) : List Tag :=
  labels.mergeSort fun a b => depth a.name ≤ depth b.name

theorem byDepth_perm (labels : List Tag) : (byDepth labels).Perm labels :=
  List.mergeSort_perm _ _

theorem depth_le_trans (a b c : Tag) : decide (depth a.name ≤ depth b.name) = true →
    decide (depth b.name ≤ depth c.name) = true → decide (depth a.name ≤ depth c.name) = true := by
  simp only [decide_eq_true_eq]
  exact Nat.le_trans

theorem depth_le_total (a b : Tag) :
    (decide (depth a.name ≤ depth b.name) || decide (depth b.name ≤ depth a.name)) = true := by
  simp only [Bool.or_eq_true, decide_eq_true_eq]
  exact Nat.le_total _ _

theorem byDepth_pairwise (labels : List Tag) :
    (byDepth labels).Pairwise fun a b => depth a.name ≤ depth b.name :=
  (List.pairwise_mergeSort depth_le_trans depth_le_total labels).imp of_decide_eq_true

theorem pair_sublist_or {labels : List Tag} {l m : Tag} (hne : l ≠ m) (hl : l ∈ labels)
    (hm : m ∈ labels) : [l, m].Sublist labels ∨ [m, l].Sublist labels := by
  induction labels with
  | nil => simp at hl
  | cons first rest ih =>
    rcases List.mem_cons.mp hl with rfl | hlrest
    · have hmrest : m ∈ rest := (List.mem_cons.mp hm).resolve_left hne.symm
      exact Or.inl ((List.singleton_sublist.mpr hmrest).cons_cons l)
    · rcases List.mem_cons.mp hm with rfl | hmrest
      · exact Or.inr ((List.singleton_sublist.mpr hlrest).cons_cons m)
      · exact (ih hlrest hmrest).imp (·.cons first) (·.cons first)

theorem pair_sublist_asymm {labels : List Tag} (hn : labels.Nodup) {l m : Tag}
    (h : [l, m].Sublist labels) : ¬[m, l].Sublist labels := by
  intro hback
  induction labels with
  | nil => simp at h
  | cons first rest ih =>
    obtain ⟨hfirst, hrest⟩ := List.nodup_cons.mp hn
    cases h with
    | cons _ h =>
      cases hback with
      | cons _ hback => exact ih hrest h hback
      | cons_cons _ _ => exact hfirst (h.subset (by simp))
    | cons_cons _ _ =>
      cases hback with
      | cons _ hback => exact hfirst (hback.subset (by simp))
      | cons_cons _ hback => exact hfirst (hback.subset (by simp))

/-- The sort is stable: labels of one depth stand as they were listed. -/
theorem byDepth_stable {labels : List Tag} (hn : labels.Nodup) {l m : Tag}
    (h : [l, m].Sublist (byDepth labels)) (hdepth : depth m.name ≤ depth l.name) :
    [l, m].Sublist labels := by
  have hperm := byDepth_perm labels
  have hsorted : (byDepth labels).Nodup := hperm.nodup_iff.mpr hn
  have hne : l ≠ m := by
    rintro rfl
    exact absurd (hsorted.sublist h) (by simp)
  rcases pair_sublist_or hne (hperm.subset (h.subset (by simp : l ∈ [l, m])))
    (hperm.subset (h.subset (by simp : m ∈ [l, m]))) with hlm | hml
  · exact hlm
  · have hswap := List.pair_sublist_mergeSort depth_le_trans depth_le_total
      (decide_eq_true hdepth) hml
    exact absurd hswap (pair_sublist_asymm hsorted h)

theorem byDepth_of_sorted {labels : List Tag}
    (h : labels.Pairwise fun a b => depth a.name ≤ depth b.name) : byDepth labels = labels :=
  List.mergeSort_of_pairwise (h.imp fun hab => by simpa using hab)

namespace Rebuild

/-- The state of a level after some labels: who is a child and who waits below which child. -/
structure Sifted (above : String) (parent : Option NodeRef) (seen : List Tag)
    (adopted : List Adoption) (level : Level) : Prop where
  parents : ∀ a ∈ adopted, a.parent = parent
  children : level.children.entries = adopted.map fun a => (restOf above a.label.name, a.node)
  sublist : (adopted.map Adoption.label).Sublist seen
  top : ∀ a ∈ adopted, ∀ o ∈ seen, ¬Above o.name a.label.name
  covered : ∀ l ∈ seen, ∃ a ∈ adopted, a.label = l ∨ Above a.label.name l.name
  below : ∀ a ∈ adopted, ∃ low, level.below.get? a.node = some low ∧ low.Sublist seen ∧
    ∀ l ∈ seen, l ∈ low ↔ Above a.label.name l.name

theorem sifted_nil (above : String) (parent : Option NodeRef) : Sifted above parent [] [] {} := by
  constructor <;> simp [Table.empty]

/-- Under one stem, keys lie above each other as the names do. -/
theorem startsWith_restOf {above : String} {a l : Tag} (ha : ∃ rest, a.name = stem above ++ rest)
    (hl : ∃ rest, l.name = stem above ++ rest) :
    Text.startsWith (restOf above l.name) (restOf above a.name ++ "/") = true ↔
      Above a.name l.name := by
  obtain ⟨r, hr⟩ := ha
  obtain ⟨q, hq⟩ := hl
  rw [hr, hq, restOf_stem, restOf_stem, startsWith_iff_above, above_stem_iff]

namespace Sifted

variable {above : String} {parent : Option NodeRef} {seen : List Tag} {adopted : List Adoption}
  {level : Level} {l : Tag}

theorem label_mem (h : Sifted above parent seen adopted level) {a : Adoption}
    (ha : a ∈ adopted) : a.label ∈ seen := h.sublist.subset (List.mem_map_of_mem ha)

/-- The owner that a level finds for a label is the child above it. -/
theorem owner?_eq (h : Sifted above parent seen adopted level)
    (hstem : ∀ m ∈ seen ++ [l], ∃ rest, m.name = stem above ++ rest) :
    (level.owner? (restOf above l.name) = none ∧ ∀ a ∈ adopted, ¬Above a.label.name l.name) ∨
      ∃ a ∈ adopted, Above a.label.name l.name ∧
        level.owner? (restOf above l.name) = some a.node := by
  have habove : ∀ a ∈ adopted, (Text.startsWith (restOf above l.name)
      (restOf above a.label.name ++ "/") = true ↔ Above a.label.name l.name) := fun a ha =>
    startsWith_restOf (hstem _ (List.mem_append_left _ (h.label_mem ha)))
      (hstem _ List.mem_concat_self)
  rw [Level.owner?, h.children, List.find?_map]
  cases hfind : adopted.find? ((fun entry : String × NodeRef =>
      Text.startsWith (restOf above l.name) (entry.1 ++ "/")) ∘
      fun a => (restOf above a.label.name, a.node)) with
  | none =>
    refine Or.inl ⟨rfl, fun a ha hal => ?_⟩
    exact List.find?_eq_none.mp hfind a ha ((habove a ha).mpr hal)
  | some a =>
    have ha := List.mem_of_find?_eq_some hfind
    have hfound := List.find?_some hfind
    exact Or.inr ⟨a, ha, (habove a ha).mp hfound, rfl⟩

/-- At most one child lies above a label. -/
theorem above_unique (h : Sifted above parent seen adopted level)
    (hnames : ((seen ++ [l]).map Tag.name).Nodup) {a b : Adoption} (ha : a ∈ adopted)
    (hb : b ∈ adopted) (hal : Above a.label.name l.name) (hbl : Above b.label.name l.name) :
    a = b := by
  have hseen : (adopted.map fun a => a.label.name).Nodup := by
    have := hnames.sublist ((h.sublist.trans (List.sublist_append_left seen [l])).map Tag.name)
    rwa [List.map_map] at this
  rcases hal.linear hbl with heq | hab | hba
  · exact List.inj_on_of_nodup_map hseen ha hb heq
  · exact absurd hab (h.top b hb _ (h.label_mem ha))
  · exact absurd hba (h.top a ha _ (h.label_mem hb))

/-- A label with a child above it waits below that child. -/
theorem wait (h : Sifted above parent seen adopted level)
    (hnames : ((seen ++ [l]).map Tag.name).Nodup)
    (hdepth : ∀ m ∈ seen, depth m.name ≤ depth l.name)
    (hnodes : ∀ a ∈ adopted, ∀ b ∈ adopted, a.node = b.node → a = b) {a : Adoption}
    (ha : a ∈ adopted) (hal : Above a.label.name l.name) :
    Sifted above parent (seen ++ [l]) adopted
      { level with below := level.below.modify a.node (· ++ [l]) } := by
  have hnew : l ∉ seen := by
    intro hl
    rw [List.map_append, List.nodup_append] at hnames
    exact hnames.2.2 l.name (List.mem_map_of_mem hl) l.name (by simp) rfl
  -- The labels come by depth: none that has its place already belongs below this one.
  have hlow : ∀ m ∈ seen, ¬Above l.name m.name := fun m hm hlm =>
    Nat.not_lt.mpr (hdepth m hm) hlm.depth_lt
  constructor
  case parents => exact h.parents
  case children => exact h.children
  case sublist => exact h.sublist.trans (List.sublist_append_left seen [l])
  case top =>
    intro b hb o ho
    rcases List.mem_append.mp ho with hold | hone
    · exact h.top b hb o hold
    · rw [List.mem_singleton.mp hone]
      exact hlow _ (h.label_mem hb)
  case covered =>
    intro m hm
    rcases List.mem_append.mp hm with hold | hone
    · exact h.covered m hold
    · rw [List.mem_singleton.mp hone]
      exact ⟨a, ha, Or.inr hal⟩
  case below =>
    intro b hb
    obtain ⟨low, hget, hsub, hmem⟩ := h.below b hb
    rw [Table.get?_modify, hget]
    by_cases hab : b.node = a.node
    · have hba := hnodes b hb a ha hab
      subst hba
      refine ⟨low ++ [l], by rw [if_pos rfl]; rfl, hsub.append (List.Sublist.refl _), ?_⟩
      intro m hm
      rcases List.mem_append.mp hm with hold | hone
      · rw [← hmem m hold]
        have hne : m ≠ l := fun he => hnew (he ▸ hold)
        simp [hne]
      · rw [List.mem_singleton.mp hone]
        simp [hal]
    · refine ⟨low, by rw [if_neg hab], hsub.trans (List.sublist_append_left seen [l]), ?_⟩
      intro m hm
      rcases List.mem_append.mp hm with hold | hone
      · exact hmem m hold
      · rw [List.mem_singleton.mp hone]
        refine ⟨fun hl => absurd (hsub.subset hl) hnew, fun hbl => ?_⟩
        exact absurd (congrArg Adoption.node (h.above_unique hnames hb ha hbl hal)) hab

/-- A label without a child above it becomes a child. -/
theorem join (h : Sifted above parent seen adopted level)
    (hstem : ∀ m ∈ seen ++ [l], ∃ rest, m.name = stem above ++ rest)
    (hnames : ((seen ++ [l]).map Tag.name).Nodup)
    (hdepth : ∀ m ∈ seen, depth m.name ≤ depth l.name) {r : NodeRef}
    (hr : ∀ a ∈ adopted, a.node ≠ r) (hnone : ∀ a ∈ adopted, ¬Above a.label.name l.name) :
    Sifted above parent (seen ++ [l]) (adopted ++ [⟨l, parent, r⟩])
      ⟨level.children.put (restOf above l.name) r, level.below.put r []⟩ := by
  have hlow : ∀ m ∈ seen, ¬Above l.name m.name := fun m hm hlm =>
    Nat.not_lt.mpr (hdepth m hm) hlm.depth_lt
  have hkey : restOf above l.name ∉ level.children.keys := by
    rw [Table.keys, h.children, List.map_map]
    intro hmem
    obtain ⟨a, ha, hrest⟩ := List.mem_map.mp hmem
    obtain ⟨x, hx⟩ := hstem _ (List.mem_append_left _ (h.label_mem ha))
    obtain ⟨y, hy⟩ := hstem _ List.mem_concat_self
    have hrest : restOf above a.label.name = restOf above l.name := hrest
    rw [hx, hy, restOf_stem, restOf_stem] at hrest
    rw [List.map_append, List.nodup_append] at hnames
    exact hnames.2.2 a.label.name (List.mem_map_of_mem (h.label_mem ha)) l.name (by simp)
      (by rw [hx, hy, hrest])
  -- A child that covers a label above this one would lie above this one as well.
  have htop : ∀ o ∈ seen, ¬Above o.name l.name := by
    intro o ho hol
    obtain ⟨a, ha, heq | hao⟩ := h.covered o ho
    · exact hnone a ha (heq ▸ hol)
    · exact hnone a ha (hao.trans hol)
  constructor
  case parents =>
    intro a ha
    rcases List.mem_append.mp ha with hold | hone
    · exact h.parents a hold
    · rw [List.mem_singleton.mp hone]
  case children =>
    rw [Table.put_of_new r hkey, h.children]
    simp
  case sublist => simpa using h.sublist.append (List.Sublist.refl [l])
  case top =>
    intro a ha o ho
    rcases List.mem_append.mp ha with hold | hone <;>
      rcases List.mem_append.mp ho with hseen | hlast
    · exact h.top a hold o hseen
    · rw [List.mem_singleton.mp hlast]
      exact hlow _ (h.label_mem hold)
    · rw [List.mem_singleton.mp hone]
      exact htop o hseen
    · rw [List.mem_singleton.mp hone, List.mem_singleton.mp hlast]
      exact Above.irrefl l.name
  case covered =>
    intro m hm
    rcases List.mem_append.mp hm with hold | hone
    · obtain ⟨a, ha, hcov⟩ := h.covered m hold
      exact ⟨a, List.mem_append_left _ ha, hcov⟩
    · exact ⟨_, List.mem_concat_self, Or.inl (List.mem_singleton.mp hone).symm⟩
  case below =>
    intro a ha
    rw [Table.get?_put]
    rcases List.mem_append.mp ha with hold | hone
    · obtain ⟨low, hget, hsub, hmem⟩ := h.below a hold
      refine ⟨low, by rw [if_neg (hr a hold), hget],
        hsub.trans (List.sublist_append_left seen [l]), fun m hm => ?_⟩
      rcases List.mem_append.mp hm with hseen | hlast
      · exact hmem m hseen
      · rw [List.mem_singleton.mp hlast]
        refine ⟨fun hl => ?_, fun hal => absurd hal (hnone a hold)⟩
        rw [List.map_append, List.nodup_append] at hnames
        exact absurd rfl (hnames.2.2 l.name (List.mem_map_of_mem (hsub.subset hl)) l.name (by simp))
    · rw [List.mem_singleton.mp hone]
      refine ⟨[], by rw [if_pos rfl], List.nil_sublist _, fun m hm => ?_⟩
      rcases List.mem_append.mp hm with hseen | hlast
      · simp [hlow m hseen]
      · rw [List.mem_singleton.mp hlast]
        simp [Above.irrefl]

end Sifted

theorem place_of_owner {parent : Option NodeRef} {s : Rebuild} {level : Level} {rest : String}
    {r : NodeRef} (h : level.owner? rest = some r) (l : Tag) :
    place parent (s, level) (l, rest) =
      (s, { level with below := level.below.modify r (· ++ [l]) }) := by
  simp only [place, h]

theorem place_of_top {parent : Option NodeRef} {s : Rebuild} {level : Level} {rest : String}
    (h : level.owner? rest = none) (l : Tag) :
    place parent (s, level) (l, rest) =
      ((s.adopt parent l).2, ⟨level.children.put rest (s.adopt parent l).1,
        level.below.put (s.adopt parent l).1 []⟩) := by
  simp only [place, h]

/-- Placing the labels of a level in the order of their depths sifts them. -/
theorem foldl_place (above : String) (parent : Option NodeRef) {start : Rebuild}
    (hkeyed : start.directory.Keyed) (todo : List Tag) :
    ∀ (seen : List Tag) (adopted : List Adoption) (s : Rebuild) (level : Level),
      Walk start adopted [] s → Sifted above parent seen adopted level →
      (∀ m ∈ seen ++ todo, ∃ rest, m.name = stem above ++ rest) →
      ((seen ++ todo).map Tag.name).Nodup → ((seen ++ todo).map Tag.id).Nodup →
      (seen ++ todo).Pairwise (fun a b => depth a.name ≤ depth b.name) →
      ∃ all, Walk start all []
          ((todo.map fun l => (l, restOf above l.name)).foldl (place parent) (s, level)).1 ∧
        Sifted above parent (seen ++ todo) all
          ((todo.map fun l => (l, restOf above l.name)).foldl (place parent) (s, level)).2 := by
  induction todo with
  | nil =>
    intro seen adopted s level hwalk hsifted _ _ _ _
    exact ⟨adopted, hwalk, by simpa using hsifted⟩
  | cons l todo ih =>
    intro seen adopted s level hwalk hsifted hstem hnames hids hsorted
    rw [List.append_cons] at hstem hnames hids hsorted ⊢
    have hstem' : ∀ m ∈ seen ++ [l], ∃ rest, m.name = stem above ++ rest := fun m hm =>
      hstem m (List.mem_append_left _ hm)
    have hnames' : ((seen ++ [l]).map Tag.name).Nodup :=
      hnames.sublist ((List.sublist_append_left _ _).map _)
    have hids' : ((seen ++ [l]).map Tag.id).Nodup :=
      hids.sublist ((List.sublist_append_left _ _).map _)
    have hdepth : ∀ m ∈ seen, depth m.name ≤ depth l.name := fun m hm =>
      (List.pairwise_append.mp (List.pairwise_append.mp hsorted).1).2.2 m hm l (by simp)
    have hadopted : (adopted.map fun a => a.label.id).Nodup := by
      have := hids'.sublist ((hsifted.sublist.trans (List.sublist_append_left seen [l])).map Tag.id)
      rwa [List.map_map] at this
    rw [List.map_cons, List.foldl_cons]
    rcases hsifted.owner?_eq hstem' with ⟨hnone, hfree⟩ | ⟨a, ha, hal, hsome⟩
    · have hstep := hwalk.adopt parent l
      -- A node has the id of the label that takes it, so no two labels take the same.
      have hfresh : ∀ a ∈ adopted, a.node ≠ (s.adopt parent l).1 := by
        intro a ha he
        have hold := (hstep.adopted_self hkeyed (List.mem_append_left _ ha)).2
        have hself := (hstep.adopted_self hkeyed List.mem_concat_self).2
        rw [List.map_append, List.nodup_append] at hids'
        refine hids'.2.2 a.label.id (List.mem_map_of_mem (hsifted.label_mem ha)) l.id (by simp) ?_
        rw [← hold, ← hself, he]
      rw [place_of_top hnone]
      exact ih _ _ _ _ hstep (hsifted.join hstem' hnames' hdepth hfresh hfree) hstem hnames hids
        hsorted
    · rw [place_of_owner hsome]
      exact ih _ _ _ _ hwalk (hsifted.wait hnames' hdepth
        (fun a ha b hb => hwalk.adopted_injective hkeyed hadopted ha hb) ha hal) hstem hnames hids
        hsorted

end Rebuild

end Mailroom.Label
