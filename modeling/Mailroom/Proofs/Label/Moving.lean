import Mailroom.Proofs.Label.Lookup
import Mailroom.Proofs.Label.Relisting
import Mailroom.Proofs.Label.Takeover
import Mailroom.Remote.Store
import Mathlib.Data.List.Sort

/-! A subtree of a listing under another name. When a label is renamed, the names below its own go
along: what stands behind the old name stands behind the new one. Within the subtree names lie above
each other as before, so its shape and keys stay; no label of the subtree lies above one outside, so
the labels outside stay where they are; and the renamed label hangs from one of these, or at the
top. The new name has to be free for this: only labels of the subtree may have it or lie below. -/

namespace Mailroom.Label

open Rebuild (Adoption Walk)

/-! ### Names of a subtree -/

/-- A name is within the subtree of another when it is that name or lies below it. -/
def Within (path name : String) : Prop := name = path ∨ Above path name

instance (path name : String) : Decidable (Within path name) :=
  inferInstanceAs (Decidable (name = path ∨ Above path name))

/-- What stands behind the name of a subtree in the names within it. -/
def IsTail (tail : String) : Prop := tail = "" ∨ ∃ rest, tail = "/" ++ rest

theorem within_iff {path name : String} :
    Within path name ↔ ∃ tail, IsTail tail ∧ name = path ++ tail := by
  constructor
  · rintro (rfl | ⟨rest, rfl⟩)
    · exact ⟨"", Or.inl rfl, by simp⟩
    · exact ⟨"/" ++ rest, Or.inr ⟨rest, rfl⟩, String.append_assoc⟩
  · rintro ⟨tail, rfl | ⟨rest, rfl⟩, rfl⟩
    · exact Or.inl (by simp)
    · exact Or.inr ⟨rest, String.append_assoc.symm⟩

theorem above_append_iff (path a b : String) : Above (path ++ a) (path ++ b) ↔ Above a b := by
  simp only [above_iff_isPrefix, String.toList_append, List.append_assoc,
    List.prefix_append_right_inj]

namespace Within

variable {path name other : String}

theorem length_le (h : Within path name) : path.length ≤ name.length := by
  rcases h with rfl | h
  · exact Nat.le_refl _
  · exact Nat.le_of_lt h.length_lt

theorem below (h : Within path name) (habove : Above name other) : Above path other := by
  rcases h with rfl | h
  · exact habove
  · exact h.trans habove

/-- A name outside of a subtree lies above a name within it just when it lies above its top. -/
theorem above_iff (h : Within path name) (hout : ¬Within path other) :
    Above other name ↔ Above other path := by
  rcases h with rfl | h
  · exact Iff.rfl
  · constructor
    · intro hother
      rcases hother.linear h with heq | hup | hdown
      · exact absurd (Or.inl heq) hout
      · exact hup
      · exact absurd (Or.inr hdown) hout
    · exact fun hup => hup.trans h

end Within

/-! ### Renaming -/

/-- The name that a name has after the label named `old` was named `new`. -/
def movedName (old new name : String) : String :=
  if name = old then new else Remote.Store.renamed old new name

/-- A label after the label named `old` was named `new`. -/
def Tag.moved (old new : String) (l : Tag) : Tag := ⟨l.id, movedName old new l.name⟩

section Names

variable {old new name tail : String}

theorem movedName_append (h : IsTail tail) : movedName old new (old ++ tail) = new ++ tail := by
  rcases h with rfl | ⟨rest, rfl⟩
  · simp [movedName]
  · have hne : old ++ ("/" ++ rest) ≠ old := fun heq =>
      Above.irrefl old ⟨rest, (String.append_assoc.trans heq).symm⟩
    have hafter : Text.after? (old ++ "/").toList (old ++ ("/" ++ rest)).toList =
        some rest.toList := by
      simp [Text.after?]
    rw [movedName, if_neg hne, Remote.Store.renamed, hafter]
    simp [String.append_assoc]

theorem movedName_of_not_within (h : ¬Within old name) : movedName old new name = name := by
  have hafter : Text.after? (old ++ "/").toList name.toList = none := by
    have hstarts : ¬(old ++ "/").toList.isPrefixOf name.toList = true := fun hstarts =>
      h (Or.inr (startsWith_iff_above.mp hstarts))
    rw [Text.after?, if_neg hstarts]
  rw [movedName, if_neg fun heq => h (Or.inl heq), Remote.Store.renamed, hafter]

theorem movedName_self : movedName old new old = new := if_pos rfl

theorem within_movedName (new : String) (h : Within old name) :
    Within new (movedName old new name) := by
  obtain ⟨tail, htail, rfl⟩ := within_iff.mp h
  exact within_iff.mpr ⟨tail, htail, movedName_append htail⟩

end Names

namespace Tag

variable {old new : String} {l o : Tag}

theorem moved_of_not_within (h : ¬Within old l.name) : l.moved old new = l :=
  congrArg (Tag.mk l.id) (movedName_of_not_within h)

/-- Within a subtree names lie above each other as before. -/
theorem above_moved_iff (ho : Within old o.name) (hl : Within old l.name) :
    Above (o.moved old new).name (l.moved old new).name ↔ Above o.name l.name := by
  obtain ⟨t, ht, ho⟩ := within_iff.mp ho
  obtain ⟨u, hu, hl⟩ := within_iff.mp hl
  simp only [moved, ho, hl, movedName_append ht, movedName_append hu, above_append_iff]

theorem length_moved_le_iff (ho : Within old o.name) (hl : Within old l.name) :
    (o.moved old new).name.length ≤ (l.moved old new).name.length ↔
      o.name.length ≤ l.name.length := by
  obtain ⟨t, ht, ho⟩ := within_iff.mp ho
  obtain ⟨u, hu, hl⟩ := within_iff.mp hl
  simp only [moved, ho, hl, movedName_append ht, movedName_append hu, String.length_append]
  omega

/-- What remains of a name behind one above it within the subtree stays as it is. -/
theorem rest_moved (ho : Within old o.name) {key moved : String}
    (hkey : o.name ++ "/" ++ key = l.name)
    (hmoved : (o.moved old new).name ++ "/" ++ moved = (l.moved old new).name) : moved = key := by
  obtain ⟨t, ht, ho⟩ := within_iff.mp ho
  have htail : IsTail (t ++ "/" ++ key) := by
    rcases ht with rfl | ⟨rest, rfl⟩
    · exact Or.inr ⟨key, by simp⟩
    · exact Or.inr ⟨rest ++ "/" ++ key, by simp [String.append_assoc]⟩
  have hl : l.name = old ++ (t ++ "/" ++ key) := by
    rw [← hkey, ho]
    simp [String.append_assoc]
  simp only [Tag.moved, ho, hl, movedName_append ht, movedName_append htail] at hmoved
  simpa only [String.append_assoc, String.append_right_inj] using hmoved

end Tag

/-! ### Listings -/

/-- A listed label can be given a new name that is free: labels outside of its subtree neither have
it nor lie below it. -/
structure Movable (labels : List Tag) (old new : String) : Prop where
  proper : Proper labels
  nonempty : new ≠ ""
  free : ∀ m ∈ labels, ¬Within old m.name → ¬Within new m.name

/-- The listing after the label named `old` was named `new`. -/
def moved (old new : String) (labels : List Tag) : List Tag := labels.map (Tag.moved old new)

theorem mem_moved {old new : String} {labels : List Tag} {l : Tag} (hl : l ∈ labels) :
    l.moved old new ∈ moved old new labels := List.mem_map_of_mem hl

namespace Movable

variable {labels : List Tag} {old new : String} {l o : Tag} (h : Movable labels old new)
include h

theorem within_iff (hl : l ∈ labels) :
    Within new (l.moved old new).name ↔ Within old l.name := by
  constructor
  · intro hnew
    by_contra hout
    rw [Tag.moved_of_not_within hout] at hnew
    exact h.free l hl hout hnew
  · exact within_movedName new

theorem name_inj (hl : l ∈ labels) (ho : o ∈ labels)
    (heq : (l.moved old new).name = (o.moved old new).name) : l = o := by
  refine h.proper.eq_of_name hl ho ?_
  have hiff : Within old l.name ↔ Within old o.name := by
    rw [← h.within_iff hl, ← h.within_iff ho, heq]
  by_cases hin : Within old l.name
  · obtain ⟨t, ht, hlname⟩ := Label.within_iff.mp hin
    obtain ⟨u, hu, honame⟩ := Label.within_iff.mp (hiff.mp hin)
    simp only [Tag.moved, hlname, honame, movedName_append ht, movedName_append hu] at heq
    rw [hlname, honame, (String.append_right_inj new).mp heq]
  · rwa [Tag.moved_of_not_within hin, Tag.moved_of_not_within (hiff.not.mp hin)] at heq

theorem proper_moved : Proper (moved old new labels) := by
  constructor
  case ids =>
    rw [moved, List.map_map]
    exact h.proper.ids
  case names =>
    rw [moved, List.map_map]
    exact h.proper.nodup.map_on fun l hl o ho heq => h.name_inj hl ho heq
  case nonempty =>
    intro m hm hempty
    obtain ⟨l, hl, rfl⟩ := List.mem_map.mp hm
    by_cases hin : Within old l.name
    · have hlength := (within_movedName new hin).length_le
      rw [show movedName old new l.name = "" from hempty] at hlength
      exact h.nonempty (String.length_eq_zero_iff.mp (Nat.le_zero.mp hlength))
    · rw [Tag.moved_of_not_within hin] at hempty
      exact h.proper.nonempty l hl hempty

/-! ### Where labels hang -/

omit h in
/-- A label within the subtree lies above none outside, before and after. -/
theorem not_above (ho : Within old o.name) (hl : ¬Within old l.name) : ¬Above o.name l.name :=
  fun habove => hl (Or.inr (ho.below habove))

theorem not_above_moved (hl : l ∈ labels) (hout : ¬Within old l.name) (ho : Within old o.name) :
    ¬Above (o.moved old new).name l.name :=
  fun habove => h.free l hl hout (Or.inr ((within_movedName new ho).below habove))

/-- From a label of the subtree hang the same labels as before. -/
theorem hangs_iff (hl : l ∈ labels) (ho : o ∈ labels) (hin : Within old o.name) :
    Hangs (moved old new labels) (some (o.moved old new)) (l.moved old new) ↔
      Hangs labels (some o) l := by
  by_cases hlin : Within old l.name
  · constructor
    · rintro ⟨-, hol, hlongest⟩
      refine ⟨ho, (Tag.above_moved_iff hin hlin).mp hol, fun p hp hpl => ?_⟩
      by_cases hpin : Within old p.name
      · exact (Tag.length_moved_le_iff hpin hin).mp (hlongest _ (mem_moved hp)
          ((Tag.above_moved_iff hpin hlin).mpr hpl))
      · have hup := (hlin.above_iff hpin).mp hpl
        exact Nat.le_of_lt (Nat.lt_of_lt_of_le hup.length_lt hin.length_le)
    · rintro ⟨-, hol, hlongest⟩
      refine ⟨mem_moved ho, (Tag.above_moved_iff hin hlin).mpr hol, fun q hq hql => ?_⟩
      obtain ⟨p, hp, rfl⟩ := List.mem_map.mp hq
      by_cases hpin : Within old p.name
      · exact (Tag.length_moved_le_iff hpin hin).mpr
          (hlongest p hp ((Tag.above_moved_iff hpin hlin).mp hql))
      · rw [Tag.moved_of_not_within hpin] at hql ⊢
        have hup := ((within_movedName new hlin).above_iff (h.free p hp hpin)).mp hql
        exact Nat.le_of_lt (Nat.lt_of_lt_of_le hup.length_lt (within_movedName new hin).length_le)
  · rw [Tag.moved_of_not_within hlin]
    exact iff_of_false (fun hangs => h.not_above_moved hl hlin hin hangs.2.1)
      fun hangs => not_above hin hlin hangs.2.1

/-- A label outside of the subtree hangs where it hung, from a label outside or at the top. -/
theorem hangs_outside (hl : l ∈ labels) (hout : ¬Within old l.name) {owner : Option Tag}
    (hangs : Hangs labels owner l) :
    Hangs (moved old new labels) owner l ∧ ∀ o ∈ owner, ¬Within old o.name := by
  have hsame : ∀ {q}, q ∈ moved old new labels → Above q.name l.name → q ∈ labels := by
    intro q hq hql
    obtain ⟨p, hp, rfl⟩ := List.mem_map.mp hq
    have hpout : ¬Within old p.name := fun hpin => h.not_above_moved hl hout hpin hql
    rwa [Tag.moved_of_not_within hpout]
  cases owner with
  | none => exact ⟨fun q hq hql => hangs q (hsame hq hql) hql, by simp⟩
  | some o =>
    obtain ⟨ho, hol, hlongest⟩ := hangs
    have hoout : ¬Within old o.name := fun hin => not_above hin hout hol
    refine ⟨⟨?_, hol, fun q hq hql => hlongest q (hsame hq hql) hql⟩, by simpa using hoout⟩
    exact List.mem_map.mpr ⟨o, ho, Tag.moved_of_not_within hoout⟩

omit h in
/-- The renamed label hangs from a label outside of its subtree, or at the top. -/
theorem hangs_top (hname : l.name = old) {owner : Option Tag}
    (hangs : Hangs (moved old new labels) owner (l.moved old new)) :
    ∀ o ∈ owner, o ∈ labels ∧ ¬Within old o.name := by
  rintro o rfl
  obtain ⟨hmem, habove, -⟩ := hangs
  obtain ⟨p, hp, rfl⟩ := List.mem_map.mp hmem
  have hpout : ¬Within old p.name := by
    intro hin
    have hlength := (within_movedName new hin).length_le
    have hshorter := habove.length_lt
    rw [show (l.moved old new).name = new by rw [Tag.moved, hname, movedName_self]] at hshorter
    exact absurd hlength (Nat.not_le.mpr hshorter)
  rw [Tag.moved_of_not_within hpout]
  exact ⟨hp, hpout⟩

omit h in
/-- A label below another hangs from a label of the other's subtree. -/
theorem owner_within (hl : l ∈ labels) (hname : l.name = old) (habove : Above l.name o.name)
    {owner : Option Tag} (hangs : Hangs labels owner o) :
    ∃ p, owner = some p ∧ Within old p.name := by
  cases owner with
  | none => exact absurd habove (hangs l hl)
  | some p =>
    obtain ⟨-, hpo, hlongest⟩ := hangs
    refine ⟨p, rfl, ?_⟩
    rcases habove.linear hpo with heq | hlp | hpl
    · exact Or.inl (heq.symm.trans hname)
    · exact Or.inr (hname ▸ hlp)
    · exact absurd (hlongest l hl habove) (Nat.not_le.mpr hpl.length_lt)

theorem keyUnder_moved (hl : l ∈ labels) (hin : Within old o.name)
    (hangs : Hangs labels (some o) l) :
    keyUnder (some (o.moved old new)) (l.moved old new) = keyUnder (some o) l :=
  Tag.rest_moved hin (keyUnder_some h.proper hangs)
    (keyUnder_some h.proper_moved ((h.hangs_iff hl hangs.1 hin).mpr hangs))

end Movable

/-! ### Rows of children -/

/-- The labels that hang from one owner stand in one order only. -/
theorem eq_of_earlier {labels row other : List Tag} (hn : labels.Nodup) {owner : Option Tag}
    (hrow : row.Pairwise (Earlier labels owner)) (hother : other.Pairwise (Earlier labels owner))
    (hmem : ∀ l, l ∈ row ↔ l ∈ other) : row = other := by
  have : Std.Irrefl (Earlier labels owner) := ⟨fun _ h => h.ne hn rfl⟩
  have : Std.Antisymm (Earlier labels owner) := ⟨fun _ _ hlm hml => absurd hml (hlm.asymm hn)⟩
  exact hrow.eq_of_mem_iff hother hmem

namespace Directory

/-- A node stands below another, or at the top, under a key. -/
def StandsUnder (d : Directory) (r : NodeRef) (holder : Option NodeRef) (key : String) : Prop :=
  (d.node r).parent = holder ∧ (key, r) ∈ (d.childrenOf holder).entries

namespace IsTreeOf

variable {d e : Directory} {labels : List Tag} {ref : Tag → NodeRef} {holder : Option NodeRef}
  {key : String} {l o : Tag}

theorem standsUnder_iff (h : d.IsTreeOf labels ref) (hp : Proper labels) (hl : l ∈ labels)
    {owner : Option Tag} (hangs : Hangs labels owner l) :
    d.StandsUnder (ref l) holder key ↔ holder = owner.map ref ∧ key = keyUnder owner l := by
  have hparent := h.parent l hl owner hangs
  have hin : ∀ q ∈ owner.map ref, d.InTree q := by
    intro q hq
    obtain ⟨o, ho, rfl⟩ := Option.mem_map.mp hq
    exact (h.inTree_iff _).mpr ⟨o, hangs.owner_mem o ho, rfl⟩
  constructor
  · rintro ⟨hholder, hmem⟩
    obtain rfl := hholder.symm.trans hparent
    exact (h.stored_iff hp hl hangs hin).mp hmem
  · rintro ⟨rfl, rfl⟩
    exact ⟨hparent, (h.stored_iff hp hl hangs hin).mpr ⟨rfl, rfl⟩⟩

section Moved

variable {old new : String} (hd : d.IsTreeOf labels ref)
  (he : e.IsTreeOf (moved old new labels) ref) (h : Movable labels old new)
  (href : ∀ l, ref (l.moved old new) = ref l)
include hd he h href

/-- Below a label of the renamed subtree hang the same nodes under the same keys, in the same
order. -/
theorem children_moved (ho : o ∈ labels) (hin : Within old o.name) :
    (e.node (ref o)).children = (d.node (ref o)).children := by
  obtain ⟨row, hmem, hsorted, hentries⟩ := hd.row (some o) (by simpa using ho)
  obtain ⟨other, hmem', hsorted', hentries'⟩ := he.row (some (o.moved old new))
    (by simpa using mem_moved ho)
  have hkey : ∀ l ∈ row, keyUnder (some (o.moved old new)) (l.moved old new) =
      keyUnder (some o) l := fun l hl =>
    h.keyUnder_moved ((hmem l).mp hl).1 hin ((hmem l).mp hl).2
  have hother : other = row.map (Tag.moved old new) := by
    refine eq_of_earlier h.proper_moved.nodup hsorted' ?_ fun q => ?_
    · rw [List.pairwise_map]
      refine hsorted.imp_of_mem fun {l m} hl hm hlm => ?_
      rw [Earlier, hkey l hl, hkey m hm]
      exact hlm.imp_right fun ⟨heq, hsub⟩ => ⟨heq, hsub.map (Tag.moved old new)⟩
    · rw [hmem', List.mem_map]
      constructor
      · rintro ⟨hq, hangs⟩
        obtain ⟨l, hl, rfl⟩ := List.mem_map.mp hq
        exact ⟨l, (hmem l).mpr ⟨hl, (h.hangs_iff hl ho hin).mp hangs⟩, rfl⟩
      · rintro ⟨l, hl, rfl⟩
        obtain ⟨hl, hangs⟩ := (hmem l).mp hl
        exact ⟨mem_moved hl, (h.hangs_iff hl ho hin).mpr hangs⟩
  have hsame : ((e.node (ref o)).children).entries = ((d.node (ref o)).children).entries := by
    rw [Option.map_some, href, childrenOf] at hentries'
    rw [hentries', hother, List.map_map]
    refine Eq.trans (List.map_congr_left fun l hl => ?_) hentries.symm
    rw [Function.comp_apply, hkey l hl, href]
  exact congrArg Table.mk hsame

/-- Every label but the renamed one stands where it stood, under the key that it had. -/
theorem standsUnder_moved_iff (hl : l ∈ labels) (hname : l.name = old) (ho : o ∈ labels)
    (hne : o ≠ l) : e.StandsUnder (ref o) holder key ↔ d.StandsUnder (ref o) holder key := by
  obtain ⟨owner, hangs⟩ := Hangs.exists_owner labels o
  rw [hd.standsUnder_iff h.proper ho hangs, ← href]
  by_cases hin : Within old o.name
  · have habove : Above l.name o.name := by
      rw [hname]
      exact hin.resolve_left fun heq => hne (h.proper.eq_of_name ho hl (heq.trans hname.symm))
    obtain ⟨p, rfl, hpin⟩ := Movable.owner_within hl hname habove hangs
    have hangs' := (h.hangs_iff ho hangs.1 hpin).mpr hangs
    rw [he.standsUnder_iff h.proper_moved (mem_moved ho) hangs', h.keyUnder_moved ho hpin hangs,
      Option.map_some, Option.map_some, href]
  · obtain ⟨hangs', hout⟩ := h.hangs_outside ho hin hangs
    rw [Tag.moved_of_not_within hin]
    have hmem : o.moved old new ∈ moved old new labels := mem_moved ho
    rw [Tag.moved_of_not_within hin] at hmem
    exact he.standsUnder_iff h.proper_moved hmem hangs'

end Moved

end IsTreeOf

/-- What becomes of the directory `d` that showed some labels when one of them is named `new`: the
directory `e` shows them on the same nodes. The subtree goes along with its shape, every label but
the renamed one stands where it stood, and that one where its new name belongs. -/
structure Moves (d e : Directory) (labels : List Tag) (l : Tag) (new : String) : Prop where
  shows : e.Shows (moved l.name new labels)
  nodes : ∀ o ∈ labels, e.nodeOf (o.moved l.name new) = d.nodeOf o
  subtree : ∀ o ∈ labels, ∀ tail, IsTail tail → o.name = l.name ++ tail →
    (e.node (d.nodeOf o)).name = new ++ tail ∧
      (e.node (d.nodeOf o)).children = (d.node (d.nodeOf o)).children
  outside : ∀ o ∈ labels, ¬Within l.name o.name → (e.node (d.nodeOf o)).name = o.name
  standing : ∀ o ∈ labels, o ≠ l → ∀ holder key,
    e.StandsUnder (d.nodeOf o) holder key ↔ d.StandsUnder (d.nodeOf o) holder key
  hung : ∃ owner, Hangs (moved l.name new labels) owner ⟨l.id, new⟩ ∧
    (∀ o ∈ owner, o ∈ labels ∧ ¬Within l.name o.name) ∧
    e.StandsUnder (d.nodeOf l) (owner.map d.nodeOf) (keyUnder owner ⟨l.id, new⟩)
  resolve : ∀ path r, e.resolve none path = .ok r ↔
    ∃ o ∈ labels, (o.moved l.name new).name = path ∧ d.nodeOf o = r
  gone : ∀ o ∈ labels, Within l.name o.name →
    (∃ what, e.resolve none o.name = .error (.notFound what)) ∨
      ∃ m ∈ labels, Within l.name m.name ∧ (m.moved l.name new).name = o.name

theorem Shows.moves {d e : Directory} {labels : List Tag} {l : Tag} {new : String}
    (hd : d.Shows labels) (he : e.Shows (moved l.name new labels))
    (h : Movable labels l.name new) (hl : l ∈ labels)
    (hkept : ∀ o ∈ labels, e.nodeOf (o.moved l.name new) = d.nodeOf o) :
    Moves d e labels l new := by
  have href : ∀ o : Tag, d.nodeOf (o.moved l.name new) = d.nodeOf o := fun _ => rfl
  have htree : e.IsTreeOf (moved l.name new labels) d.nodeOf := he.tree.congr fun m hm => by
    obtain ⟨o, ho, rfl⟩ := List.mem_map.mp hm
    exact (href o).trans (hkept o ho).symm
  have htag : ∀ o ∈ labels, (e.node (d.nodeOf o)).name = (o.moved l.name new).name := fun o ho =>
    congrArg Tag.name (htree.tag _ (mem_moved ho))
  have htop : l.moved l.name new = ⟨l.id, new⟩ := congrArg (Tag.mk l.id) movedName_self
  have hanswers := fun path => htree.resolve_answers h.proper_moved none (by simp) path
  have hok : ∀ path r, e.resolve none path = .ok r ↔
      ∃ o ∈ labels, (o.moved l.name new).name = path ∧ d.nodeOf o = r := fun path r => by
    rw [show (none : Option NodeRef) = (none : Option Tag).map d.nodeOf from rfl,
      (hanswers path).ok_iff h.proper_moved]
    simp only [moved, List.mem_map, exists_exists_and_eq_and, nameUnder, href]
  constructor
  case shows => exact he
  case nodes => exact hkept
  case subtree =>
    rintro o ho tail htail hname
    refine ⟨(htag o ho).trans ?_, ?_⟩
    · rw [Tag.moved, hname, movedName_append htail]
    · exact hd.tree.children_moved htree h href ho (within_iff.mpr ⟨tail, htail, hname⟩)
  case outside => exact fun o ho hout => (htag o ho).trans (movedName_of_not_within hout)
  case standing =>
    exact fun o ho hne holder key => hd.tree.standsUnder_moved_iff htree h href hl rfl ho hne
  case hung =>
    obtain ⟨owner, hangs⟩ := Hangs.exists_owner (moved l.name new labels) (l.moved l.name new)
    refine ⟨owner, htop ▸ hangs, Movable.hangs_top rfl hangs, ?_⟩
    exact (htree.standsUnder_iff h.proper_moved (mem_moved hl) hangs).mpr ⟨rfl, by rw [htop]⟩
  case resolve => exact hok
  case gone =>
    intro o ho hin
    by_cases hnew : ∃ m ∈ labels, (m.moved l.name new).name = o.name
    · obtain ⟨m, hm, hname⟩ := hnew
      refine Or.inr ⟨m, hm, ?_, hname⟩
      by_contra hout
      rw [Tag.moved_of_not_within hout] at hname
      exact hout (hname ▸ hin)
    · refine Or.inl ((hanswers o.name).notFound_iff.mpr fun q hq hname => hnew ?_)
      obtain ⟨m, hm, rfl⟩ := List.mem_map.mp hq
      exact ⟨m, hm, hname⟩

end Directory

/-! ### Listings with the same ids -/

theorem Rebuild.Walk.size_eq {s t : Rebuild} {adopted : List Adoption}
    {given : List (NodeRef × Table String NodeRef)} (h : Walk s adopted given t)
    (hknown : ∀ a ∈ adopted, s.directory.registry.hasId a.label.id = true) :
    t.directory.nodes.size = s.directory.nodes.size := by
  induction h with
  | nil => rfl
  | @adopt _ _ t parent label hwalk ih =>
    obtain ⟨r, hr⟩ := Option.isSome_iff_exists.mp (hknown _ List.mem_concat_self)
    rw [← hwalk.registry] at hr
    rw [← ih fun a ha => hknown a (List.mem_append_left _ ha)]
    simp [Rebuild.adopt, nodeFor_known hr, Directory.modifyNode]
  | give _ _ _ _ ih =>
    rw [← ih hknown]
    exact Array.size_modify

namespace Directory

variable {s d : Directory} {labels : List Tag}

/-- Registered are the fixed nodes and those with the ids of some labels, at most. -/
def Confined (s d : Directory) (labels : List Tag) : Prop :=
  ∀ entry ∈ d.registry.byId.entries, entry.2 ∈ s.fixed ∨ ∃ l ∈ labels, l.id = entry.1

theorem Based.confined_rebuild (h : Based s d) (labels : List Tag) :
    Confined s (d.rebuild labels).directory labels := by
  intro entry hentry
  obtain ⟨adopted, given, hwalk, hlisted⟩ := Rebuild.rebuildLevel_walk (labels.length + 1) none ""
    labels { directory := d, next := d.fixedRegistry } h.keyed
  rcases hwalk.mem_next h.keyed hentry with hfixed | ⟨a, ha, rfl⟩
  · obtain ⟨f, hf, rfl⟩ := mem_fixedRegistry hfixed
    exact Or.inl (h.fixed ▸ hf)
  · exact Or.inr ⟨a.label, hlisted a ha, rfl⟩

/-- A listing whose ids are all known makes no node, and evicts none of the user when it has all the
ids that are known. -/
theorem Based.rebuild_known (h : Based s d) (hp : Proper labels)
    (hknown : ∀ l ∈ labels, d.registry.hasId l.id = true) (hconfined : Confined s d labels) :
    (d.rebuild labels).directory.nodes.size = d.nodes.size ∧ ∀ r ∉ s.fixed,
      ((d.rebuild labels).directory.node r).evicted = (d.node r).evicted := by
  obtain ⟨adopted, given, hlaying⟩ :=
    Rebuild.exists_laying_of_links h.keyed hp (links_fixedRegistry h.has_fixed)
  constructor
  · have hsize : (d.rebuild labels).directory.nodes.size = _ :=
      Nat.le_antisymm (Nat.not_lt.mp fun hlt => Nat.lt_irrefl _ (Rebuild.finish_has.mp hlt))
        (Nat.not_lt.mp fun hlt => Nat.lt_irrefl _ (Rebuild.finish_has.mpr hlt))
    exact hsize.trans (hlaying.walk.size_eq fun a ha => hknown _ (hlaying.label_mem ha))
  · intro r hr
    have hkept : r ∉ (d.rebuild labels).evicted := by
      intro hmem
      obtain ⟨entry, hentry, rfl⟩ := List.mem_map.mp (Rebuild.mem_evicted.mp hmem).1
      obtain ⟨l, hl, hid⟩ := (hconfined entry hentry).resolve_left hr
      obtain ⟨a, ha, rfl⟩ := hlaying.exists_adopted hl
      have hown : a.label.id = (d.node entry.2).id := hid.trans (h.keyed entry hentry).2.symm
      exact Rebuild.not_mem_evicted (hown ▸ hlaying.byId a ha) hmem
    rw [Bool.eq_iff_iff]
    exact (Rebuild.finish_evicted hlaying.walk h.keyed).trans (or_iff_left hkept)

end Directory

end Mailroom.Label
