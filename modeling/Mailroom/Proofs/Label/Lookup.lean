import Mailroom.Proofs.Label.Tree

/-! Looking a path up in a tree. The lookup follows one key at each level and never goes back. That
is enough in the tree of a listing: the children of a node have distinct names, and whichever of
them begins a path, the rest of the path is to be looked for below it. So a path leads to the label
of that name, if there is one, and a path below a node to the label of the joined name. -/

namespace Mailroom

namespace Text

/-- A text is cut after any number of its pieces at a separator. -/
theorem exists_pieces_cut (separator : Char) (cs : List Char) :
    ∀ n, 0 < n → n < (pieces separator cs).length →
      ∃ a b, cs = a ++ separator :: b ∧ pieces separator a = (pieces separator cs).take n ∧
        pieces separator b = (pieces separator cs).drop n := by
  induction cs with
  | nil =>
    intro n hn hlt
    simp [pieces] at hlt
    omega
  | cons c rest ih =>
    intro n hn hlt
    obtain ⟨n, rfl⟩ : ∃ m, n = m + 1 := ⟨n - 1, by omega⟩
    by_cases hc : c = separator
    · subst hc
      have hpieces : pieces c (c :: rest) = [] :: pieces c rest := by simp [pieces]
      rw [hpieces] at hlt ⊢
      cases n with
      | zero => exact ⟨[], rest, by simp [pieces]⟩
      | succ n =>
        obtain ⟨a, b, hrest, ha, hb⟩ := ih (n + 1) (Nat.succ_pos _) (by simpa using hlt)
        exact ⟨c :: a, b, by simp [hrest], by simp [pieces, ha], by simp [hb]⟩
    · cases hp : pieces separator rest with
      | nil => exact absurd hp (pieces_ne_nil separator rest)
      | cons piece more =>
        have hpieces : pieces separator (c :: rest) = (c :: piece) :: more := by
          simp [pieces, hc, hp]
        rw [hpieces] at hlt ⊢
        obtain ⟨a, b, hrest, ha, hb⟩ := ih (n + 1) (Nat.succ_pos _) (by simpa [hp] using hlt)
        rw [hp] at ha hb
        exact ⟨c :: a, b, by simp [hrest], by simp [pieces, hc, ha], by simpa using hb⟩

theorem exists_split_cut {s : String} {n : Nat} (hn : 0 < n) (hlt : n < (split '/' s).length) :
    ∃ a b, s = a ++ "/" ++ b ∧ split '/' a = (split '/' s).take n ∧
      split '/' b = (split '/' s).drop n := by
  obtain ⟨a, b, hs, ha, hb⟩ := exists_pieces_cut '/' s.toList n hn (by simpa [split] using hlt)
  refine ⟨String.ofList a, String.ofList b, String.toList_injective (by simp [hs]), ?_, ?_⟩
  · simp [split, ha, List.map_take]
  · simp [split, hb, List.map_drop]

end Text

namespace Label

/-- The cuts of a path are its slashes. -/
theorem mem_cuts {path front : String} {behind : List String} :
    (front, behind) ∈ Directory.cuts (Text.split '/' path) ↔
      ∃ rest, path = front ++ "/" ++ rest ∧ behind = Text.split '/' rest := by
  simp only [Directory.cuts, List.mem_map, List.mem_reverse, List.mem_range'_1, Prod.mk.injEq]
  constructor
  · rintro ⟨n, ⟨hn, hlt⟩, rfl, rfl⟩
    obtain ⟨a, b, hpath, ha, hb⟩ := Text.exists_split_cut (s := path) (n := n) hn (by omega)
    exact ⟨b, by rw [← ha, Text.join_split, hpath], hb.symm⟩
  · rintro ⟨rest, rfl, rfl⟩
    have hfront := List.length_pos_of_ne_nil (Text.split_ne_nil '/' front)
    have hrest := List.length_pos_of_ne_nil (Text.split_ne_nil '/' rest)
    refine ⟨(Text.split '/' front).length, ⟨hfront, ?_⟩, ?_, ?_⟩
    · rw [Text.split_slash, List.length_append]
      omega
    · rw [Text.split_slash, List.take_left, Text.join_split]
    · rw [Text.split_slash, List.drop_left]

/-- The name that a path stands for below a label, or at the top. -/
def nameUnder : Option Tag → String → String
  | none, path => path
  | some o, path => o.name ++ "/" ++ path

theorem nameUnder_keyUnder {labels : List Tag} (hp : Proper labels) {owner : Option Tag} {l : Tag}
    (h : Hangs labels owner l) : nameUnder owner (keyUnder owner l) = l.name := by
  cases owner with
  | none => rfl
  | some o => exact keyUnder_some hp h

theorem nameUnder_slash (owner : Option Tag) (front rest : String) :
    nameUnder owner (front ++ "/" ++ rest) = nameUnder owner front ++ "/" ++ rest := by
  cases owner with
  | none => rfl
  | some o => simp [nameUnder, String.append_assoc]

theorem nameUnder_injective (owner : Option Tag) : Function.Injective (nameUnder owner) := by
  intro a b h
  cases owner with
  | none => exact h
  | some o =>
    have hlist := congrArg String.toList h
    simp only [nameUnder, String.toList_append, List.append_assoc,
      List.append_cancel_left_eq] at hlist
    exact String.toList_injective hlist

/-- Every label below another, or any label at the top, is reached through a child. -/
theorem Hangs.exists_child {labels : List Tag} (hp : Proper labels) {owner : Option Tag}
    {l : Tag} (hl : l ∈ labels) (howner : ∀ o ∈ owner, o ∈ labels ∧ Above o.name l.name) :
    ∃ c ∈ labels, Hangs labels owner c ∧ (c = l ∨ Above c.name l.name) := by
  -- By the length of the name: what a label hangs from has a shorter one.
  induction hn : l.name.length using Nat.strong_induction_on generalizing l with
  | _ n ih =>
    obtain ⟨other, hangs⟩ := Hangs.exists_owner labels l
    by_cases heq : other = owner
    · exact ⟨l, hl, heq ▸ hangs, Or.inl rfl⟩
    · obtain ⟨m, rfl, hm, hml, hbelow⟩ : ∃ m, other = some m ∧ m ∈ labels ∧ Above m.name l.name ∧
          ∀ o ∈ owner, o ∈ labels ∧ Above o.name m.name := by
        cases other with
        | none =>
          cases owner with
          | none => exact absurd rfl heq
          | some o => exact absurd (howner o rfl).2 (hangs o (howner o rfl).1)
        | some m =>
          obtain ⟨hm, hml, hlongest⟩ := hangs
          refine ⟨m, rfl, hm, hml, fun o ho => ?_⟩
          obtain ⟨hmem, hol⟩ := howner o ho
          rcases hol.linear hml with hname | hom | hmo
          · have hsame : o = m := hp.eq_of_name hmem hm hname
            exact absurd (hsame ▸ ho).symm heq
          · exact ⟨hmem, hom⟩
          · exact absurd (hlongest o hmem hol) (Nat.not_le.mpr hmo.length_lt)
      obtain ⟨c, hc, hangsc, hcm⟩ := ih m.name.length (hn ▸ hml.length_lt) hm hbelow rfl
      refine ⟨c, hc, hangsc, Or.inr ?_⟩
      rcases hcm with rfl | hcm
      · exact hml
      · exact hcm.trans hml

/-- The answer to a lookup of a path that stands for a name: the node of the label of that name, or,
when there is none, a failure that tells where the path was left. -/
def Answers (labels : List Tag) (ref : Tag → NodeRef) (name path : String)
    (answer : Except Failure NodeRef) : Prop :=
  (∃ l ∈ labels, l.name = name ∧ answer = .ok (ref l)) ∨
    (∀ l ∈ labels, l.name ≠ name) ∧ ∃ rest, (path = rest ∨ ∃ front, path = front ++ "/" ++ rest) ∧
      answer = .error (.notFound ("label path \"" ++ rest ++ "\""))

namespace Answers

variable {labels : List Tag} {ref : Tag → NodeRef} {name path : String}
  {answer : Except Failure NodeRef}

theorem ok_iff (h : Answers labels ref name path answer) {r : NodeRef} (hp : Proper labels) :
    answer = .ok r ↔ ∃ l ∈ labels, l.name = name ∧ ref l = r := by
  rcases h with ⟨l, hl, hname, rfl⟩ | ⟨hnone, rest, _, rfl⟩
  · constructor
    · intro hr
      exact ⟨l, hl, hname, Except.ok.inj hr⟩
    · rintro ⟨m, hm, hname', rfl⟩
      rw [hp.eq_of_name hl hm (hname.trans hname'.symm)]
  · constructor
    · intro hr
      cases hr
    · rintro ⟨l, hl, hname, _⟩
      exact absurd hname (hnone l hl)

theorem notFound_iff (h : Answers labels ref name path answer) :
    (∃ what, answer = .error (.notFound what)) ↔ ∀ l ∈ labels, l.name ≠ name := by
  rcases h with ⟨l, hl, hname, rfl⟩ | ⟨hnone, rest, _, rfl⟩
  · constructor
    · rintro ⟨what, hwhat⟩
      cases hwhat
    · intro hnone
      exact absurd hname (hnone l hl)
  · exact ⟨fun _ => hnone, fun _ => ⟨_, rfl⟩⟩

end Answers

namespace Directory.IsTreeOf

variable {d : Directory} {labels : List Tag} {ref : Tag → NodeRef} {owner : Option Tag}
  {key path : String} {r : NodeRef}

theorem level_eq (h : d.IsTreeOf labels ref) (howner : ∀ o ∈ owner, o ∈ labels) :
    d.level (owner.map ref) = d.childrenOf (owner.map ref) := by
  cases owner with
  | none => exact h.shown.1
  | some o => exact h.shown.2 o (howner o rfl)

/-- What is found at a level: the label that hangs there under the key. -/
theorem level_get? (h : d.IsTreeOf labels ref) (hp : Proper labels)
    (howner : ∀ o ∈ owner, o ∈ labels) : (d.level (owner.map ref)).get? key = some r ↔
      ∃ l ∈ labels, Hangs labels owner l ∧ keyUnder owner l = key ∧ ref l = r := by
  rw [h.level_eq howner]
  constructor
  · intro hget
    exact (h.mem_childrenOf howner).mp (Table.mem_of_get? hget)
  · rintro ⟨l, hl, hangs, rfl, rfl⟩
    have hmem := (h.mem_childrenOf howner).mpr ⟨l, hl, hangs, rfl, rfl⟩
    cases hget : (d.childrenOf (owner.map ref)).get? (keyUnder owner l) with
    | none => exact absurd (List.mem_map_of_mem hmem) (Table.get?_eq_none_iff.mp hget)
    | some q =>
      obtain ⟨m, hm, hangsm, hkey, rfl⟩ := (h.mem_childrenOf howner).mp (Table.mem_of_get? hget)
      rw [keyUnder_inj hp hm hl hangsm hangs hkey]

/-- A lookup answers for the name that the path stands for. -/
theorem resolveFrom_answers (h : d.IsTreeOf labels ref) (hp : Proper labels) (fuel : Nat) :
    ∀ (owner : Option Tag) (path : String), (∀ o ∈ owner, o ∈ labels) →
      (Text.split '/' path).length ≤ fuel →
      Answers labels ref (nameUnder owner path) path
        (d.resolveFrom fuel (d.level (owner.map ref)) (Text.split '/' path)) := by
  induction fuel with
  | zero =>
    intro _ path _ hfuel
    have := List.length_pos_of_ne_nil (Text.split_ne_nil '/' path)
    omega
  | succ fuel ih =>
    intro owner path howner hfuel
    simp only [resolveFrom, Text.join_split]
    cases hget : (d.level (owner.map ref)).get? path with
    | some r =>
      obtain ⟨l, hl, hangs, rfl, rfl⟩ := (h.level_get? hp howner).mp hget
      exact Or.inl ⟨l, hl, (nameUnder_keyUnder hp hangs).symm, rfl⟩
    | none =>
      cases hnext : (cuts (Text.split '/' path)).findSome? fun cut =>
          ((d.level (owner.map ref)).get? cut.1).map fun r => (r, cut.2) with
      | some step =>
        obtain ⟨⟨front, behind⟩, hcut, hstep⟩ := List.exists_of_findSome?_eq_some hnext
        obtain ⟨r, hfront, rfl⟩ := Option.map_eq_some_iff.mp hstep
        obtain ⟨rest, rfl, rfl⟩ := mem_cuts.mp hcut
        obtain ⟨c, hc, hangs, rfl, rfl⟩ := (h.level_get? hp howner).mp hfront
        -- The rest of the path below this child stands for the same name as the path here.
        have hlength := List.length_pos_of_ne_nil (Text.split_ne_nil '/' (keyUnder owner c))
        rw [Text.split_slash, List.length_append] at hfuel
        have hanswer := ih (some c) rest (by simpa using hc) (by omega)
        have hname : nameUnder (some c) rest =
            nameUnder owner (keyUnder owner c ++ "/" ++ rest) := by
          rw [nameUnder_slash, nameUnder_keyUnder hp hangs]
          rfl
        rw [hname] at hanswer
        refine hanswer.imp id fun ⟨hnone, left, hleft, heq⟩ => ⟨hnone, left, Or.inr ?_, heq⟩
        rcases hleft with rfl | ⟨more, rfl⟩
        · exact ⟨_, rfl⟩
        · exact ⟨keyUnder owner c ++ "/" ++ more, by simp [String.append_assoc]⟩
      | none =>
        -- A label of that name would be reached through a child whose key begins the path.
        refine Or.inr ⟨fun l hl hname => ?_, path, Or.inl rfl, rfl⟩
        have habove : ∀ o ∈ owner, o ∈ labels ∧ Above o.name l.name := by
          rintro o rfl
          exact ⟨howner o rfl, path, hname⟩
        obtain ⟨c, hc, hangs, rfl | ⟨rest, hrest⟩⟩ := Hangs.exists_child hp hl habove
        · rw [← nameUnder_keyUnder hp hangs] at hname
          rw [(h.level_get? hp howner).mpr ⟨c, hc, hangs, nameUnder_injective owner hname, rfl⟩]
            at hget
          cases hget
        · rw [hname, ← nameUnder_keyUnder hp hangs, ← nameUnder_slash] at hrest
          have hcut := mem_cuts.mpr ⟨rest, nameUnder_injective owner hrest, rfl⟩
          have hfront := List.findSome?_eq_none_iff.mp hnext _ hcut
          rw [(h.level_get? hp howner).mpr ⟨c, hc, hangs, rfl, rfl⟩] at hfront
          cases hfront

theorem resolve_answers (h : d.IsTreeOf labels ref) (hp : Proper labels) (owner : Option Tag)
    (howner : ∀ o ∈ owner, o ∈ labels) (path : String) :
    Answers labels ref (nameUnder owner path) path (d.resolve (owner.map ref) path) :=
  h.resolveFrom_answers hp _ owner path howner (Nat.le_refl _)

end Directory.IsTreeOf

/-- In a rebuilt tree a path is looked up as a name: it leads to the node of the listed label of
that name, which is the one registered under it, and fails when no label has the name; and a path
below a node is looked up as the path joined to the node's name. -/
theorem rebuildInto_resolve {d : Directory} {next : Registry NodeRef} {labels : List Tag}
    (hd : d.Keyed) (hp : Proper labels) (hnext : d.Links next) :
    let e := (d.rebuildInto next labels).directory
    e.IsTreeOf labels e.nodeOf ∧
      (∀ path r, e.resolve none path = .ok r ↔ ∃ l ∈ labels, l.name = path ∧ e.nodeOf l = r) ∧
      (∀ path, (∃ what, e.resolve none path = .error (.notFound what)) ↔
        ∀ l ∈ labels, l.name ≠ path) ∧
      (∀ path r, e.resolve none path = .ok r → e.registry.getByName path = .ok r) ∧
      ∀ p, e.InTree p → ∀ q,
        (∀ r, e.resolve (some p) q = .ok r ↔
          e.resolve none ((e.node p).name ++ "/" ++ q) = .ok r) ∧
        ((∃ what, e.resolve (some p) q = .error (.notFound what)) ↔
          ∃ what, e.resolve none ((e.node p).name ++ "/" ++ q) = .error (.notFound what)) := by
  obtain ⟨adopted, given, h⟩ := Rebuild.exists_laying_of_links hd hp hnext
  intro e
  have htree : e.IsTreeOf labels e.nodeOf := h.isTreeOf
  have htop : ∀ path, Answers labels e.nodeOf path path (e.resolve none path) := fun path =>
    htree.resolve_answers hp none (by simp) path
  refine ⟨htree, fun path r => (htop path).ok_iff hp, fun path => (htop path).notFound_iff, ?_, ?_⟩
  · intro path r hr
    obtain ⟨l, hl, rfl, rfl⟩ := ((htop path).ok_iff hp).mp hr
    obtain ⟨a, ha, rfl⟩ := h.exists_adopted hl
    have hname : e.registry.byName.get? a.label.name = some a.node := h.byName a ha
    have hnode : e.nodeOf a.label = a.node := h.nodeOf_label ha
    rw [Registry.getByName, hname, hnode]
  · intro p hin q
    obtain ⟨l, hl, rfl⟩ := (htree.inTree_iff p).mp hin
    have hname : (e.node (e.nodeOf l)).name = l.name := congrArg Tag.name (htree.tag l hl)
    have hbelow := htree.resolve_answers hp (some l) (by simpa using hl) q
    have hjoined := htop (l.name ++ "/" ++ q)
    rw [hname]
    exact ⟨fun r => (hbelow.ok_iff hp).trans (hjoined.ok_iff hp).symm,
      hbelow.notFound_iff.trans hjoined.notFound_iff.symm⟩

/-- A name with a doubled slash is found from the top and from the label above it; the name with a
single slash is not. -/
theorem rebuildInto_resolve_doubled :
    let d : Directory := {}
    let labels : List Tag := [⟨"2", "a//b"⟩, ⟨"1", "a"⟩]
    let e := (d.rebuildInto .empty labels).directory
    d.Keyed ∧ Proper labels ∧ d.Links .empty ∧
      e.resolve none "a//b" = .ok (e.nodeOf ⟨"2", "a//b"⟩) ∧
      e.resolve (some (e.nodeOf ⟨"1", "a"⟩)) "/b" = .ok (e.nodeOf ⟨"2", "a//b"⟩) ∧
      ∃ what, e.resolve none "a/b" = .error (.notFound what) := by
  intro d labels e
  have hd : d.Keyed := by simp [d, Directory.Keyed, Registry.empty, Table.empty]
  have hp : Proper labels := ⟨by decide, by decide, by decide⟩
  have hlinks : d.Links .empty := Directory.Links.empty d
  obtain ⟨htree, hok, hnone, -, hbelow⟩ := rebuildInto_resolve hd hp hlinks
  have hfound := (hok "a//b" _).mpr ⟨⟨"2", "a//b"⟩, by decide, rfl, rfl⟩
  refine ⟨hd, hp, hlinks, hfound, ?_, (hnone "a/b").mpr (by decide)⟩
  have hin := (htree.inTree_iff _).mpr ⟨⟨"1", "a"⟩, by decide, rfl⟩
  have hname : (e.node (e.nodeOf ⟨"1", "a"⟩)).name = "a" :=
    congrArg Tag.name (htree.tag ⟨"1", "a"⟩ (by decide))
  refine ((hbelow _ hin "/b").1 _).mpr ?_
  rw [hname]
  exact hfound

end Label

end Mailroom
