import Mailroom.Proofs.Label.Level
import Mathlib.Data.Finset.Dedup
import Mathlib.Data.Finset.Max

/-! The layout of a whole tree. `Hangs` says where a label belongs: below the listed label with the
longest name that lies above it, or at the top. `Laid` says that the log of a rebuild puts every
label there, and `rebuildLevel_laid` proves it by recursion on the levels: what waits below a child
is laid out among itself, and the parts fit together because each label has one child above it. -/

namespace Mailroom.Label

open Rebuild (depth restOf Level Adoption Walk Sifted place rebuildLevel)

/-- Where a label belongs: below the listed label with the longest name above it, or at the top when
there is none. -/
def Hangs (labels : List Tag) : Option Tag → Tag → Prop
  | none, l => ∀ o ∈ labels, ¬Above o.name l.name
  | some o, l => o ∈ labels ∧ Above o.name l.name ∧
    ∀ p ∈ labels, Above p.name l.name → p.name.length ≤ o.name.length

instance (labels : List Tag) : (owner : Option Tag) → (l : Tag) → Decidable (Hangs labels owner l)
  | none, l => inferInstanceAs (Decidable (∀ o ∈ labels, ¬Above o.name l.name))
  | some o, l => inferInstanceAs (Decidable (o ∈ labels ∧ Above o.name l.name ∧
      ∀ p ∈ labels, Above p.name l.name → p.name.length ≤ o.name.length))

namespace Hangs

variable {labels low : List Tag} {c l o : Tag}

/-- The labels below a top label form a listing of their own: at its top are the labels that hang
from the top label. -/
theorem iff_none (hc : c ∈ labels) (htop : ∀ o ∈ labels, ¬Above o.name c.name)
    (hlow : ∀ l, l ∈ low ↔ l ∈ labels ∧ Above c.name l.name) (hl : l ∈ low) :
    Hangs labels (some c) l ↔ Hangs low none l := by
  have hcl := ((hlow l).mp hl).2
  constructor
  · rintro ⟨_, _, hlongest⟩ o ho hol
    obtain ⟨hmem, hco⟩ := (hlow o).mp ho
    exact Nat.not_lt.mpr (hlongest o hmem hol) hco.length_lt
  · intro hnone
    refine ⟨hc, hcl, fun p hp hpl => ?_⟩
    rcases hpl.linear hcl with heq | hpc | hcp
    · exact Nat.le_of_eq (congrArg String.length heq)
    · exact absurd hpc (htop p hp)
    · exact absurd hpl (hnone p ((hlow p).mpr ⟨hp, hcp⟩))

/-- Within that listing labels hang as they do in the whole. -/
theorem iff_some (htop : ∀ o ∈ labels, ¬Above o.name c.name)
    (hlow : ∀ l, l ∈ low ↔ l ∈ labels ∧ Above c.name l.name) (hl : l ∈ low) (ho : o ∈ low) :
    Hangs labels (some o) l ↔ Hangs low (some o) l := by
  have hcl := ((hlow l).mp hl).2
  obtain ⟨hmem, hco⟩ := (hlow o).mp ho
  constructor
  · rintro ⟨_, hol, hlongest⟩
    exact ⟨ho, hol, fun p hp hpl => hlongest p ((hlow p).mp hp).1 hpl⟩
  · rintro ⟨_, hol, hlongest⟩
    refine ⟨hmem, hol, fun p hp hpl => ?_⟩
    rcases hpl.linear hcl with heq | hpc | hcp
    · rw [heq]
      exact Nat.le_of_lt hco.length_lt
    · exact absurd hpc (htop p hp)
    · exact hlongest p ((hlow p).mpr ⟨hp, hcp⟩) hpl

/-- A label below a top label hangs from it or from another label below it. -/
theorem eq_or_mem (hp : Proper labels) (hc : c ∈ labels)
    (htop : ∀ o ∈ labels, ¬Above o.name c.name)
    (hlow : ∀ l, l ∈ low ↔ l ∈ labels ∧ Above c.name l.name) (hl : l ∈ low)
    (h : Hangs labels (some o) l) : o = c ∨ o ∈ low := by
  obtain ⟨ho, hol, _⟩ := h
  rcases hol.linear ((hlow l).mp hl).2 with heq | hoc | hco
  · exact Or.inl (hp.eq_of_name ho hc heq)
  · exact absurd hoc (htop o ho)
  · exact Or.inr ((hlow o).mpr ⟨ho, hco⟩)

/-- A label with another above it hangs from one of those. -/
theorem exists_some {l : Tag} (h : ∃ o ∈ labels, Above o.name l.name) :
    ∃ o, Hangs labels (some o) l := by
  classical
  obtain ⟨o, ho, hol⟩ := h
  obtain ⟨m, hm, hmax⟩ := Finset.exists_max_image
    (labels.toFinset.filter fun o => Above o.name l.name) (fun o => o.name.length)
    ⟨o, by simpa using ⟨ho, hol⟩⟩
  obtain ⟨hmem, hml⟩ : m ∈ labels ∧ Above m.name l.name := by simpa using hm
  exact ⟨m, hmem, hml, fun p hp hpl => hmax p (by simpa using ⟨hp, hpl⟩)⟩

/-- Every label has a place among the others. -/
theorem exists_owner (labels : List Tag) (l : Tag) : ∃ owner, Hangs labels owner l := by
  by_cases htop : Hangs labels none l
  · exact ⟨none, htop⟩
  · simp only [Hangs, not_forall, not_not, exists_prop] at htop
    obtain ⟨o, ho⟩ := exists_some htop
    exact ⟨some o, ho⟩

theorem owner_mem {owner : Option Tag} (h : Hangs labels owner l) : ∀ o ∈ owner, o ∈ labels := by
  rintro o rfl
  exact h.1

theorem unique (hp : Proper labels) {o p : Option Tag} (ho : Hangs labels o l)
    (hq : Hangs labels p l) : o = p := by
  match o, p, ho, hq with
  | none, none, _, _ => rfl
  | none, some q, ho, ⟨hmem, hql, _⟩ => exact absurd hql (ho q hmem)
  | some q, none, ⟨hmem, hql, _⟩, hp => exact absurd hql (hp q hmem)
  | some q, some r, ⟨hmem, hql, hlong⟩, ⟨hmem', hrl, hlong'⟩ =>
    have hlen : q.name.length = r.name.length :=
      Nat.le_antisymm (hlong' q hmem hql) (hlong r hmem' hrl)
    rcases hql.linear hrl with heq | hqr | hrq
    · rw [hp.eq_of_name hmem hmem' heq]
    · exact absurd hqr.length_lt (by omega)
    · exact absurd hrq.length_lt (by omega)

end Hangs

namespace Rebuild

/-- A table of children lists the nodes of some labels, in the order of the listing, under what
remains of their names. -/
def IsRow (labels : List Tag) (adopted : List Adoption) (above : String) (member : Tag → Prop)
    (children : Table String NodeRef) : Prop :=
  ∃ row : List Adoption, row ⊆ adopted ∧ (row.map Adoption.label).Sublist (byDepth labels) ∧
    (∀ a ∈ adopted, a ∈ row ↔ member a.label) ∧
    children.entries = row.map fun a => (restOf above a.label.name, a.node)

/-- The log of a rebuild puts every label where it belongs. -/
structure Laid (parent : Option NodeRef) (above : String) (labels : List Tag)
    (children : Table String NodeRef) (adopted : List Adoption)
    (given : List (NodeRef × Table String NodeRef)) : Prop where
  perm : (adopted.map Adoption.label).Perm labels
  given_perm : (given.map Prod.fst).Perm (adopted.map Adoption.node)
  children : IsRow labels adopted above (Hangs labels none) children
  parent_top : ∀ a ∈ adopted, Hangs labels none a.label → a.parent = parent
  parent_owner : ∀ a ∈ adopted, ∀ b ∈ adopted,
    Hangs labels (some b.label) a.label → a.parent = some b.node
  rows : ∀ b ∈ adopted, ∃ row, (b.node, row) ∈ given ∧
    IsRow labels adopted b.label.name (Hangs labels (some b.label)) row

/-! ### Fitting the parts together -/

/-- A child of a level with the labels that wait below it and the log of laying them out. -/
structure Part where
  top : Adoption
  low : List Tag
  children : Table String NodeRef
  adopted : List Adoption
  given : List (NodeRef × Table String NodeRef)

/-- What a part of a sifted level has to be. -/
structure Part.Fits (seen : List Tag) (p : Part) : Prop where
  sublist : p.low.Sublist seen
  mem_low : ∀ l ∈ seen, l ∈ p.low ↔ Above p.top.label.name l.name
  laid : Laid (some p.top.node) p.top.label.name p.low p.children p.adopted p.given

theorem given_perm_parts (parts : List Part)
    (h : ∀ p ∈ parts, (p.given.map Prod.fst).Perm (p.adopted.map Adoption.node)) :
    ((parts.flatMap fun p => p.given ++ [(p.top.node, p.children)]).map Prod.fst).Perm
      ((parts.map Part.top ++ parts.flatMap Part.adopted).map Adoption.node) := by
  induction parts with
  | nil => exact List.Perm.refl _
  | cons p parts ih =>
    have hp := h p List.mem_cons_self
    have hrest := ih fun q hq => h q (List.mem_cons_of_mem _ hq)
    rw [List.perm_iff_count] at hp hrest ⊢
    intro x
    have hcount := hrest x
    simp only [List.flatMap_cons, List.map_append, List.map_cons, List.map_nil, List.count_append,
      List.count_cons, List.count_nil, hp x] at hcount ⊢
    omega

section Fitting

variable {above : String} {parent : Option NodeRef} {labels : List Tag} {tops : List Adoption}
  {level : Level} {parts : List Part}

theorem Part.Fits.mem_low_iff {p : Part} (h : p.Fits (byDepth labels)) (l : Tag) :
    l ∈ p.low ↔ l ∈ labels ∧ Above p.top.label.name l.name := by
  rw [← (byDepth_perm labels).mem_iff]
  exact ⟨fun hl => ⟨h.sublist.subset hl, (h.mem_low l (h.sublist.subset hl)).mp hl⟩,
    fun ⟨hl, habove⟩ => (h.mem_low l hl).mpr habove⟩

theorem Part.Fits.label_mem {p : Part} {seen : List Tag} (h : p.Fits seen) {a : Adoption}
    (ha : a ∈ p.adopted) : a.label ∈ p.low :=
  h.laid.perm.subset (List.mem_map_of_mem ha)

/-- A row of a part is a row of the whole. -/
theorem Part.Fits.isRow {p : Part} (h : p.Fits (byDepth labels)) {all : List Adoption}
    (hall : p.adopted ⊆ all) {key : String} {member member' : Tag → Prop}
    (hmember : ∀ a ∈ p.adopted, member a.label ↔ member' a.label)
    (honly : ∀ a ∈ all, member' a.label → a ∈ p.adopted) {children : Table String NodeRef}
    (hrow : IsRow p.low p.adopted key member children) :
    IsRow labels all key member' children := by
  obtain ⟨row, hsub, hsorted, hmem, hentries⟩ := hrow
  rw [byDepth_of_sorted ((byDepth_pairwise labels).sublist h.sublist)] at hsorted
  refine ⟨row, fun a ha => hall (hsub ha), hsorted.trans h.sublist, fun a ha => ?_, hentries⟩
  constructor
  · intro harow
    exact (hmember a (hsub harow)).mp ((hmem a (hsub harow)).mp harow)
  · intro ha'
    have hpart := honly a ha ha'
    exact (hmem a hpart).mpr ((hmember a hpart).mpr ha')

variable (hsifted : Sifted above parent (byDepth labels) tops level)
  (htops : parts.map Part.top = tops)
include hsifted htops

theorem Part.top_mem {p : Part} (hpart : p ∈ parts) :
    p.top ∈ tops ∧ p.top.label ∈ labels ∧ ∀ o ∈ labels, ¬Above o.name p.top.label.name := by
  have htop : p.top ∈ tops := htops ▸ List.mem_map_of_mem hpart
  refine ⟨htop, (byDepth_perm labels).subset (hsifted.label_mem htop), fun o ho => ?_⟩
  exact hsifted.top p.top htop o ((byDepth_perm labels).mem_iff.mpr ho)

variable (hp : Proper labels) (hfits : ∀ p ∈ parts, p.Fits (byDepth labels))
include hp hfits

/-- Every label is taken once, by a child of the level or in the one part below which it waits. -/
theorem labels_perm_parts :
    ((tops ++ parts.flatMap Part.adopted).map Adoption.label).Perm labels := by
  have hnodup : (tops.map Adoption.label).Nodup :=
    (hp.perm (byDepth_perm labels)).nodup.sublist hsifted.sublist
  have hlow : ∀ p ∈ parts, ∀ l ∈ p.adopted.map Adoption.label, l ∈ p.low := fun p hpart l hl =>
    (hfits p hpart).laid.perm.subset hl
  have hparts : (parts.flatMap fun p => p.adopted.map Adoption.label).Nodup := by
    refine List.nodup_flatMap.mpr ⟨fun p hpart => ?_, ?_⟩
    · have hsub := (hfits p hpart).sublist
      exact (hfits p hpart).laid.perm.nodup_iff.mpr
        ((hp.perm (byDepth_perm labels)).nodup.sublist hsub)
    · rw [← htops, List.map_map] at hnodup
      refine List.Pairwise.imp_of_mem ?_ (List.pairwise_map.mp hnodup)
      intro p q hpart hqart hne l hlp hlq
      obtain ⟨_, hpl⟩ := ((hfits p hpart).mem_low_iff l).mp (hlow p hpart l hlp)
      obtain ⟨_, hql⟩ := ((hfits q hqart).mem_low_iff l).mp (hlow q hqart l hlq)
      obtain ⟨_, hpmem, hptop⟩ := Part.top_mem hsifted htops hpart
      obtain ⟨_, hqmem, hqtop⟩ := Part.top_mem hsifted htops hqart
      -- Tops that lie above the same label are equal, or one lies above the other.
      rcases hpl.linear hql with heq | hpq | hqp
      · exact hne (hp.eq_of_name hpmem hqmem heq)
      · exact hqtop _ hpmem hpq
      · exact hptop _ hqmem hqp
  rw [List.map_append, List.map_flatMap]
  refine (List.perm_ext_iff_of_nodup ?_ hp.nodup).mpr fun l => ?_
  · refine List.nodup_append.mpr ⟨hnodup, hparts, ?_⟩
    intro l hl m hm heq
    obtain ⟨a, ha, rfl⟩ := List.mem_map.mp hl
    obtain ⟨p, hpart, hmem⟩ := List.mem_flatMap.mp hm
    obtain ⟨hmlabels, habove⟩ := ((hfits p hpart).mem_low_iff m).mp (hlow p hpart m hmem)
    have hptop := (Part.top_mem hsifted htops hpart).2.1
    exact hsifted.top a ha _ ((byDepth_perm labels).mem_iff.mpr hptop) (heq ▸ habove)
  · rw [List.mem_append, List.mem_flatMap]
    constructor
    · rintro (hl | ⟨p, hpart, hl⟩)
      · exact (byDepth_perm labels).subset (hsifted.sublist.subset hl)
      · exact (((hfits p hpart).mem_low_iff l).mp (hlow p hpart l hl)).1
    · intro hl
      obtain ⟨a, ha, heq | habove⟩ := hsifted.covered l ((byDepth_perm labels).mem_iff.mpr hl)
      · exact Or.inl (List.mem_map.mpr ⟨a, ha, heq⟩)
      · rw [← htops] at ha
        obtain ⟨p, hpart, rfl⟩ := List.mem_map.mp ha
        refine Or.inr ⟨p, hpart, ?_⟩
        exact (hfits p hpart).laid.perm.mem_iff.mpr
          (((hfits p hpart).mem_low_iff l).mpr ⟨hl, habove⟩)

/-- In the whole, an adoption is known by its label. -/
theorem eq_of_label {a b : Adoption} (ha : a ∈ tops ++ parts.flatMap Part.adopted)
    (hb : b ∈ tops ++ parts.flatMap Part.adopted) (hab : a.label = b.label) : a = b :=
  List.inj_on_of_nodup_map
    ((labels_perm_parts hsifted htops hp hfits).nodup_iff.mpr hp.nodup) ha hb hab

/-- A label that waits in a part is taken in that part. -/
theorem mem_adopted_of_low {p : Part} (hpart : p ∈ parts) {a : Adoption}
    (ha : a ∈ tops ++ parts.flatMap Part.adopted) (hlow : a.label ∈ p.low) : a ∈ p.adopted := by
  obtain ⟨b, hb, hlabel⟩ := List.mem_map.mp ((hfits p hpart).laid.perm.mem_iff.mpr hlow)
  have hball : b ∈ tops ++ parts.flatMap Part.adopted :=
    List.mem_append_right _ (List.mem_flatMap.mpr ⟨p, hpart, hb⟩)
  rwa [← eq_of_label hsifted htops hp hfits hball ha hlabel]

/-- A label at the top of a part hangs from the part's child, and only such labels do. -/
theorem row_of_top {p : Part} (hpart : p ∈ parts) :
    IsRow labels (tops ++ parts.flatMap Part.adopted) p.top.label.name
      (Hangs labels (some p.top.label)) p.children := by
  have hf := hfits p hpart
  obtain ⟨_, hmem, htop⟩ := Part.top_mem hsifted htops hpart
  refine hf.isRow (fun a ha => List.mem_append_right _ (List.mem_flatMap.mpr ⟨p, hpart, ha⟩))
    (fun a ha => (Hangs.iff_none hmem htop hf.mem_low_iff (hf.label_mem ha)).symm) ?_
    hf.laid.children
  rintro a ha ⟨-, habove, -⟩
  have hlabel := (labels_perm_parts hsifted htops hp hfits).subset (List.mem_map_of_mem ha)
  exact mem_adopted_of_low hsifted htops hp hfits hpart ha ((hf.mem_low_iff _).mpr
    ⟨hlabel, habove⟩)

theorem row_of_low {p : Part} (hpart : p ∈ parts) {b : Adoption} (hb : b ∈ p.adopted)
    {row : Table String NodeRef}
    (hrow : IsRow p.low p.adopted b.label.name (Hangs p.low (some b.label)) row) :
    IsRow labels (tops ++ parts.flatMap Part.adopted) b.label.name
      (Hangs labels (some b.label)) row := by
  have hf := hfits p hpart
  obtain ⟨_, _, htop⟩ := Part.top_mem hsifted htops hpart
  have hlow := hf.label_mem hb
  refine hf.isRow (fun a ha => List.mem_append_right _ (List.mem_flatMap.mpr ⟨p, hpart, ha⟩))
    (fun a ha => (Hangs.iff_some htop hf.mem_low_iff (hf.label_mem ha) hlow).symm) ?_ hrow
  rintro a ha ⟨-, habove, -⟩
  have hlabel := (labels_perm_parts hsifted htops hp hfits).subset (List.mem_map_of_mem ha)
  exact mem_adopted_of_low hsifted htops hp hfits hpart ha ((hf.mem_low_iff _).mpr
    ⟨hlabel, ((hf.mem_low_iff _).mp hlow).2.trans habove⟩)

/-- A sifted level and the layouts below its children make the layout of the whole. -/
theorem laid_of_parts :
    Laid parent above labels level.children (tops ++ parts.flatMap Part.adopted)
      (parts.flatMap fun p => p.given ++ [(p.top.node, p.children)]) := by
  have htop_or : ∀ a ∈ tops ++ parts.flatMap Part.adopted,
      a ∈ tops ∨ ∃ p ∈ parts, a ∈ p.adopted := fun a ha =>
    (List.mem_append.mp ha).imp id List.mem_flatMap.mp
  have htops_none : ∀ a ∈ tops, Hangs labels none a.label := fun a ha o ho =>
    hsifted.top a ha o ((byDepth_perm labels).mem_iff.mpr ho)
  have hlow_some : ∀ p ∈ parts, ∀ a ∈ p.adopted, ¬Hangs labels none a.label := by
    intro p hpart a ha hnone
    obtain ⟨_, hmem, _⟩ := Part.top_mem hsifted htops hpart
    exact hnone _ hmem (((hfits p hpart).mem_low_iff _).mp ((hfits p hpart).label_mem ha)).2
  constructor
  case perm => exact labels_perm_parts hsifted htops hp hfits
  case given_perm =>
    have := given_perm_parts parts fun p hpart => (hfits p hpart).laid.given_perm
    rwa [htops] at this
  case children =>
    refine ⟨tops, List.subset_append_left _ _, hsifted.sublist, fun a ha => ?_, hsifted.children⟩
    refine ⟨htops_none a, fun hnone => ?_⟩
    rcases htop_or a ha with htop | ⟨p, hpart, hmem⟩
    · exact htop
    · exact absurd hnone (hlow_some p hpart a hmem)
  case parent_top =>
    intro a ha hnone
    rcases htop_or a ha with htop | ⟨p, hpart, hmem⟩
    · exact hsifted.parents a htop
    · exact absurd hnone (hlow_some p hpart a hmem)
  case parent_owner =>
    intro a ha b hb hhangs
    rcases htop_or a ha with htop | ⟨p, hpart, hmem⟩
    · exact absurd hhangs.2.1 (htops_none a htop _ hhangs.1)
    have hf := hfits p hpart
    obtain ⟨hptop, hpmem, habove⟩ := Part.top_mem hsifted htops hpart
    have hlow := hf.label_mem hmem
    rcases Hangs.eq_or_mem hp hpmem habove hf.mem_low_iff hlow hhangs with heq | hblow
    · have hbtop : b = p.top :=
        eq_of_label hsifted htops hp hfits hb (List.mem_append_left _ hptop) heq
      rw [hbtop]
      refine hf.laid.parent_top a hmem ?_
      exact (Hangs.iff_none hpmem habove hf.mem_low_iff hlow).mp (heq ▸ hhangs)
    · have hbmem := mem_adopted_of_low hsifted htops hp hfits hpart hb hblow
      exact hf.laid.parent_owner a hmem b hbmem
        ((Hangs.iff_some habove hf.mem_low_iff hlow hblow).mp hhangs)
  case rows =>
    intro b hb
    rcases htop_or b hb with htop | ⟨p, hpart, hmem⟩
    · rw [← htops] at htop
      obtain ⟨p, hpart, rfl⟩ := List.mem_map.mp htop
      refine ⟨p.children, ?_, row_of_top hsifted htops hp hfits hpart⟩
      exact List.mem_flatMap.mpr ⟨p, hpart, List.mem_concat_self⟩
    · obtain ⟨row, hgiven, hrow⟩ := (hfits p hpart).laid.rows b hmem
      refine ⟨row, ?_, row_of_low hsifted htops hp hfits hpart hmem hrow⟩
      exact List.mem_flatMap.mpr ⟨p, hpart, List.mem_append_left _ hgiven⟩

end Fitting

/-! ### The recursion -/

/-- A level sorts its labels by what remains of their names; under one stem that is the order of
the names. -/
theorem placed_eq {above : String} {labels : List Tag}
    (hstem : ∀ l ∈ labels, ∃ rest, l.name = stem above ++ rest) :
    ((labels.map fun l => (l, restOf above l.name)).mergeSort fun a b => depth a.2 ≤ depth b.2) =
      (byDepth labels).map fun l => (l, restOf above l.name) := by
  refine (List.map_mergeSort fun a ha b hb => ?_).symm
  obtain ⟨x, hx⟩ := hstem a ha
  obtain ⟨y, hy⟩ := hstem b hb
  rw [hx, hy, restOf_stem, restOf_stem]
  exact decide_eq_decide.mpr (depth_stem_le_iff above x y)

/-- One level placed: the state after it and the level. -/
def sift (parent : Option NodeRef) (above : String) (labels : List Tag) (s : Rebuild) :
    Rebuild × Level :=
  ((labels.map fun l => (l, restOf above l.name)).mergeSort
    fun a b => depth a.2 ≤ depth b.2).foldl (place parent) (s, {})

theorem rebuildLevel_succ (fuel : Nat) (parent : Option NodeRef) (above : String)
    (labels : List Tag) (s : Rebuild) :
    rebuildLevel (fuel + 1) parent above labels s =
      ((sift parent above labels s).2.children,
        (sift parent above labels s).2.children.values.foldl (fun t r =>
          let sub := rebuildLevel fuel (some r) (t.directory.node r).name
            (((sift parent above labels s).2.below.get? r).getD []) t
          sub.2.give r sub.1) (sift parent above labels s).1) := rfl

/-- Labels that are listed by their depths already are placed as they come. -/
theorem sift_of_sorted {labels : List Tag}
    (h : labels.Pairwise fun l m => depth l.name ≤ depth m.name) (s : Rebuild) :
    sift none "" labels s = (labels.map fun l => (l, l.name)).foldl (place none) (s, {}) := by
  rw [sift, List.mergeSort_of_pairwise]
  · rfl
  · exact List.pairwise_map.mpr (h.imp fun hdepth => decide_eq_true hdepth)

/-- Every child takes a label, so fewer labels than there are wait below it. -/
theorem foldl_place_below (parent : Option NodeRef) (todo : List (Tag × String)) :
    ∀ (s : Rebuild) (level : Level) (n : Nat),
      (∀ r low, level.below.get? r = some low → low.length < n) →
      ∀ r low, (todo.foldl (place parent) (s, level)).2.below.get? r = some low →
        low.length < n + todo.length := by
  induction todo with
  | nil => exact fun _ _ _ h r low hr => h r low hr
  | cons label todo ih =>
    intro s level n h
    have hstep : ∀ r low, (place parent (s, level) label).2.below.get? r = some low →
        low.length < n + 1 := by
      intro r low hr
      simp only [place] at hr
      split at hr
      · rw [Table.get?_modify] at hr
        split at hr
        · obtain ⟨old, hold, rfl⟩ := Option.map_eq_some_iff.mp hr
          rw [List.length_append]
          exact Nat.add_lt_add_right (h r old hold) 1
        · exact Nat.lt_succ_of_lt (h r low hr)
      · rw [Table.get?_put] at hr
        split at hr
        · rw [← Option.some.inj hr]
          exact Nat.succ_pos n
        · exact Nat.lt_succ_of_lt (h r low hr)
    intro r low hr
    have := ih _ _ (n + 1) hstep r low hr
    rw [List.length_cons]
    omega

theorem sift_below_lt {parent : Option NodeRef} {above : String} {labels : List Tag} {s : Rebuild}
    {r : NodeRef} (hr : r ∈ (sift parent above labels s).2.children.values) :
    (((sift parent above labels s).2.below.get? r).getD []).length < labels.length := by
  cases labels with
  | nil => simp [sift, Table.values, Table.empty] at hr
  | cons l labels =>
    cases hget : (sift parent above (l :: labels) s).2.below.get? r with
    | none => exact Nat.succ_pos _
    | some low =>
      have := foldl_place_below parent _ s {} 0
        (fun r low h => by simp [Table.get?, Table.empty] at h) r low hget
      simpa using this

/-- A level needs no more fuel than one more than its labels: the recursion ends by itself. -/
theorem rebuildLevel_fuel (n : Nat) : ∀ (m : Nat) (parent : Option NodeRef) (above : String)
    (labels : List Tag) (s : Rebuild), labels.length < n → labels.length < m →
    rebuildLevel n parent above labels s = rebuildLevel m parent above labels s := by
  induction n with
  | zero => exact fun _ _ _ _ _ h => absurd h (Nat.not_lt_zero _)
  | succ n ih =>
    intro m parent above labels s hn hm
    obtain ⟨m, rfl⟩ : ∃ k, m = k + 1 := ⟨m - 1, by omega⟩
    rw [rebuildLevel_succ, rebuildLevel_succ]
    refine congrArg _ (List.foldl_ext _ _ _ fun t r hr => ?_)
    have hlt := sift_below_lt hr
    rw [ih m _ _ _ _ (by omega) (by omega)]

/-- The children of a sifted level are laid out one after the other. -/
theorem foldl_give {fuel : Nat} {labels : List Tag} {level : Level} (hp : Proper labels)
    (ih : ∀ (parent : Option NodeRef) (above : String) (low : List Tag) (s : Rebuild),
      low.length < fuel → Proper low → (∀ l ∈ low, ∃ rest, l.name = stem above ++ rest) →
      s.directory.Keyed → ∃ adopted given,
        Walk s adopted given (rebuildLevel fuel parent above low s).2 ∧
        Laid parent above low (rebuildLevel fuel parent above low s).1 adopted given)
    (hfuel : labels.length ≤ fuel) (tops : List Adoption) :
    ∀ s : Rebuild, s.directory.Keyed →
      (∀ a ∈ tops, a.label ∈ labels ∧ ∀ o ∈ labels, ¬Above o.name a.label.name) →
      (∀ a ∈ tops, s.directory.Has a.node ∧ s.directory.tag a.node = a.label) →
      (∀ a ∈ tops, ∃ low, level.below.get? a.node = some low ∧ low.Sublist (byDepth labels) ∧
        ∀ l ∈ byDepth labels, l ∈ low ↔ Above a.label.name l.name) →
      ∃ parts : List Part, parts.map Part.top = tops ∧ (∀ p ∈ parts, p.Fits (byDepth labels)) ∧
        Walk s (parts.flatMap Part.adopted)
          (parts.flatMap fun p => p.given ++ [(p.top.node, p.children)])
          ((tops.map Adoption.node).foldl (fun t r =>
            let sub := rebuildLevel fuel (some r) (t.directory.node r).name
              ((level.below.get? r).getD []) t
            sub.2.give r sub.1) s) := by
  induction tops with
  | nil => exact fun s _ _ _ _ => ⟨[], rfl, by simp, Walk.nil⟩
  | cons a tops ihtops =>
    intro s hkeyed htop hnode hbelow
    obtain ⟨hmem, hnone⟩ := htop a List.mem_cons_self
    obtain ⟨hhas, htag⟩ := hnode a List.mem_cons_self
    obtain ⟨low, hget, hsub, hlow⟩ := hbelow a List.mem_cons_self
    have hplow : Proper low := (hp.perm (byDepth_perm labels)).sublist hsub
    -- A label does not lie above itself, so fewer labels wait below it than there are.
    have hshort : low.length < fuel := by
      have hne : low.length ≠ (byDepth labels).length := fun heq => by
        have hin := (byDepth_perm labels).mem_iff.mpr hmem
        rw [← hsub.eq_of_length heq] at hin
        exact Above.irrefl _ ((hlow _ (hsub.subset hin)).mp hin)
      have := hsub.length_le
      rw [(byDepth_perm labels).length_eq] at this hne
      omega
    have hstem : ∀ l ∈ low, ∃ rest, l.name = stem a.label.name ++ rest := by
      intro l hl
      rw [stem_of_ne (hp.nonempty _ hmem)]
      exact (hlow l (hsub.subset hl)).mp hl
    obtain ⟨adopted, given, hwalk, hlaid⟩ :=
      ih (some a.node) a.label.name low s hshort hplow hstem hkeyed
    have hstep := hwalk.give a.node
      (rebuildLevel fuel (some a.node) a.label.name low s).1 (hwalk.has hhas)
    -- Nothing that waits below this child takes the node of a later one, whose name is kept so.
    have hkeep : ∀ b ∈ tops, ∀ c ∈ adopted, c.node ≠ b.node := by
      intro b hb c hc heq
      obtain ⟨hbhas, hbtag⟩ := hnode b (List.mem_cons_of_mem _ hb)
      obtain ⟨hbmem, hbnone⟩ := htop b (List.mem_cons_of_mem _ hb)
      have hid : c.label.id = b.label.id := by
        rw [← (hwalk.adopted_self hkeyed hc).2, heq, hwalk.id_eq hbhas, ← hbtag]
        rfl
      have hclow := hlaid.perm.subset (List.mem_map_of_mem hc)
      have hcmem := (byDepth_perm labels).subset (hsub.subset hclow)
      have habove := (hlow _ (hsub.subset hclow)).mp hclow
      rw [hp.eq_of_id hcmem hbmem hid] at habove
      exact hbnone _ hmem habove
    obtain ⟨parts, hparts, hfits, hrest⟩ := ihtops _ (hstep.keyed hkeyed)
      (fun b hb => htop b (List.mem_cons_of_mem _ hb))
      (fun b hb => by
        obtain ⟨hbhas, hbtag⟩ := hnode b (List.mem_cons_of_mem _ hb)
        obtain ⟨children, hbnode⟩ := hstep.node_of_not_adopted (hkeep b hb)
        refine ⟨hstep.has hbhas, ?_⟩
        rw [← hbtag, Directory.tag, hbnode]
        rfl)
      (fun b hb => hbelow b (List.mem_cons_of_mem _ hb))
    let part : Part :=
      ⟨a, low, (rebuildLevel fuel (some a.node) a.label.name low s).1, adopted, given⟩
    refine ⟨part :: parts, by rw [List.map_cons, hparts], ?_, ?_⟩
    · intro p hmemp
      rcases List.mem_cons.mp hmemp with rfl | hold
      · exact ⟨hsub, hlow, hlaid⟩
      · exact hfits p hold
    · have hname : (s.directory.node a.node).name = a.label.name := congrArg Tag.name htag
      simp only [List.map_cons, List.foldl_cons, hget, Option.getD_some, hname]
      exact hstep.trans hrest

/-- The tree below a level is laid out as the names of its labels say. -/
theorem rebuildLevel_laid (fuel : Nat) : ∀ (parent : Option NodeRef) (above : String)
    (labels : List Tag) (s : Rebuild), labels.length < fuel → Proper labels →
    (∀ l ∈ labels, ∃ rest, l.name = stem above ++ rest) → s.directory.Keyed →
    ∃ adopted given, Walk s adopted given (rebuildLevel fuel parent above labels s).2 ∧
      Laid parent above labels (rebuildLevel fuel parent above labels s).1 adopted given := by
  induction fuel with
  | zero => exact fun _ _ _ _ h => absurd h (Nat.not_lt_zero _)
  | succ fuel ih =>
    intro parent above labels s hfuel hp hstem hkeyed
    have hpd := hp.perm (byDepth_perm labels)
    obtain ⟨tops, hwalk, hsifted⟩ := foldl_place above parent hkeyed
      (byDepth labels) [] [] s {} Walk.nil (sifted_nil above parent)
      (fun l hl => hstem l ((byDepth_perm labels).subset hl)) hpd.names hpd.ids
      (byDepth_pairwise labels)
    rw [← placed_eq hstem] at hwalk hsifted
    change Walk s tops [] (sift parent above labels s).1 at hwalk
    change Sifted above parent (byDepth labels) tops (sift parent above labels s).2 at hsifted
    have hids : (tops.map fun a => a.label.id).Nodup := by
      have := hpd.ids.sublist (hsifted.sublist.map Tag.id)
      rwa [List.map_map] at this
    obtain ⟨parts, htops, hfits, hrest⟩ := foldl_give hp ih (Nat.lt_succ_iff.mp hfuel) tops
      (sift parent above labels s).1 (hwalk.keyed hkeyed)
      (fun a ha => ⟨(byDepth_perm labels).subset (hsifted.label_mem ha), fun o ho =>
        hsifted.top a ha o ((byDepth_perm labels).mem_iff.mpr ho)⟩)
      (fun a ha => by
        obtain ⟨hhas, hid⟩ := hwalk.adopted_self hkeyed ha
        refine ⟨hhas, ?_⟩
        rw [Directory.tag, hid, (hwalk.adopted_place hkeyed hids ha).1])
      hsifted.below
    have hvalues : (sift parent above labels s).2.children.values = tops.map Adoption.node := by
      rw [Table.values, hsifted.children, List.map_map]
      rfl
    refine ⟨tops ++ parts.flatMap Part.adopted, _, ?_,
      laid_of_parts hsifted htops hp hfits⟩
    rw [rebuildLevel_succ, hvalues]
    simpa using hwalk.trans hrest

end Rebuild

end Mailroom.Label
