import Mailroom.Proofs.Label.Relisting
import Mathlib.Logic.Relation

/-! Containment of labels. By their names, a label contains itself and the labels below it; in the
tree, a node lies above those from which it is reached over their parents. The tree of a listing
makes the two the same: a step to the parent goes to the smallest label that properly contains the
label, so whoever contains it is reached step by step, however many labels are missing between. -/

namespace Mailroom.Label

namespace Tag

variable {l m n : Tag}

/-- A label contains itself and the labels below it. -/
def Contains (l m : Tag) : Prop := l = m ∨ Above l.name m.name

instance (l m : Tag) : Decidable (l.Contains m) :=
  inferInstanceAs (Decidable (l = m ∨ Above l.name m.name))

theorem Contains.refl (l : Tag) : l.Contains l := Or.inl rfl

theorem Contains.antisymm (h : l.Contains m) (h' : m.Contains l) : l = m := by
  rcases h with rfl | hlm
  · rfl
  · rcases h' with rfl | hml
    · rfl
    · exact absurd (hlm.trans hml) (Above.irrefl _)

theorem Contains.trans (h : l.Contains m) (h' : m.Contains n) : l.Contains n := by
  rcases h with rfl | hlm
  · exact h'
  · rcases h' with rfl | hmn
    · exact Or.inr hlm
    · exact Or.inr (hlm.trans hmn)

end Tag

/-- The smallest label that properly contains another, or none when no label does. -/
def Encloses (labels : List Tag) : Option Tag → Tag → Prop
  | none, m => ∀ o ∈ labels, o.Contains m → o = m
  | some p, m => (p ∈ labels ∧ p ≠ m ∧ p.Contains m) ∧
    ∀ o ∈ labels, o ≠ m → o.Contains m → o.Contains p

/-- A label hangs from the smallest one that properly contains it. -/
theorem encloses_iff_hangs {labels : List Tag} (hp : Proper labels) {owner : Option Tag} {m : Tag} :
    Encloses labels owner m ↔ Hangs labels owner m := by
  have hproper : ∀ o ∈ labels, (o ≠ m ∧ o.Contains m ↔ Above o.name m.name) := by
    intro o _
    constructor
    · rintro ⟨hne, heq | habove⟩
      · exact absurd heq hne
      · exact habove
    · intro habove
      exact ⟨fun heq => Above.irrefl m.name (heq ▸ habove), Or.inr habove⟩
  cases owner with
  | none =>
    refine forall₂_congr fun o ho => ?_
    rw [← hproper o ho]
    tauto
  | some p =>
    constructor
    · rintro ⟨⟨hmem, hne, hcontains⟩, hleast⟩
      refine ⟨hmem, (hproper p hmem).mp ⟨hne, hcontains⟩, fun o ho hom => ?_⟩
      obtain ⟨hone, hocontains⟩ := (hproper o ho).mpr hom
      rcases hleast o ho hone hocontains with rfl | hop
      · exact Nat.le_refl _
      · exact Nat.le_of_lt hop.length_lt
    · rintro ⟨hmem, hpm, hlongest⟩
      refine ⟨⟨hmem, (hproper p hmem).mpr hpm⟩, fun o ho hone hocontains => ?_⟩
      have hom := (hproper o ho).mp ⟨hone, hocontains⟩
      rcases hom.linear hpm with heq | hop | hpo
      · exact Or.inl (hp.eq_of_name ho hmem heq)
      · exact Or.inr hop
      · exact absurd (hlongest o ho hom) (Nat.not_le.mpr hpo.length_lt)

namespace Directory

/-- A node is reached from another over parents, in any number of steps. -/
def Climbs (d : Directory) : NodeRef → NodeRef → Prop :=
  Relation.ReflTransGen fun q p => (d.node q).parent = some p

namespace IsTreeOf

variable {d : Directory} {labels : List Tag} {ref : Tag → NodeRef} {l m : Tag}
  (h : d.IsTreeOf labels ref) (hp : Proper labels)
include h hp

theorem climbs_of_above (hl : l ∈ labels) (hm : m ∈ labels) (habove : Above l.name m.name) :
    d.Climbs (ref m) (ref l) := by
  -- By the length of the name: the parent has a shorter one, and the label still lies above it.
  induction hn : m.name.length using Nat.strong_induction_on generalizing m with
  | _ n ih =>
    obtain ⟨p, hangs⟩ := Hangs.exists_some ⟨l, hl, habove⟩
    have hstep : (d.node (ref m)).parent = some (ref p) := h.parent m hm (some p) hangs
    obtain ⟨hmem, hpm, hlongest⟩ := hangs
    rcases habove.linear hpm with heq | hlp | hpl
    · rw [hp.eq_of_name hl hmem heq]
      exact .single hstep
    · exact .head hstep (ih p.name.length (hn ▸ hpm.length_lt) hmem hlp rfl)
    · exact absurd (hlongest l hl habove) (Nat.not_le.mpr hpl.length_lt)

/-- A label contains another just when its node is reached from the other's over parents. -/
theorem climbs_iff (hl : l ∈ labels) (hm : m ∈ labels) :
    d.Climbs (ref m) (ref l) ↔ l.Contains m := by
  constructor
  · intro hclimbs
    -- Every step goes to the node of a label that contains those before it.
    have hall : ∀ r, d.Climbs (ref m) r → ∃ o ∈ labels, ref o = r ∧ o.Contains m := by
      intro r hr
      induction hr with
      | refl => exact ⟨m, hm, rfl, .refl m⟩
      | tail _ hstep ih =>
        obtain ⟨o, ho, rfl, hcontains⟩ := ih
        obtain ⟨owner, hangs⟩ := Hangs.exists_owner labels o
        rw [h.parent o ho owner hangs] at hstep
        obtain ⟨p, rfl, rfl⟩ := Option.map_eq_some_iff.mp hstep
        exact ⟨p, hangs.1, rfl, Tag.Contains.trans (Or.inr hangs.2.1) hcontains⟩
    obtain ⟨o, ho, href, hcontains⟩ := hall _ hclimbs
    rwa [← h.ref_inj ho hl href]
  · rintro (rfl | habove)
    · exact .refl
    · exact h.climbs_of_above hp hl hm habove

end IsTreeOf

end Directory

end Mailroom.Label
