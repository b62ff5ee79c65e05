import Mailroom.Label.Registry
import Mailroom.Proofs.Data.Table

/-! The two maps of a registry. Setting an entry and popping one are each described by what is
found afterwards, by id and by name, and by the order of the entries. Both keep the two maps
together (`Paired`), whatever the entries are called at that moment: a registry never looks at the
name of an entry but when it is set or popped, so renaming a registered entry changes nothing. -/

namespace Mailroom.Label.Registry

variable {κ : Type} {r : Registry κ} {x : κ} {id name : String}

theorem getById_eq_ok : r.getById id = .ok x ↔ r.byId.get? id = some x := by
  unfold getById
  cases r.byId.get? id <;> simp

theorem getByName_eq_ok : r.getByName name = .ok x ↔ r.byName.get? name = some x := by
  unfold getByName
  cases r.byName.get? name <;> simp

variable [DecidableEq κ] {tag : κ → Tag} {k : κ}

theorem byId_unlinkName (former : κ) : (r.unlinkName tag former).byId = r.byId := by
  unfold unlinkName
  split <;> rfl

theorem nodup_byName_unlinkName (h : r.byName.keys.Nodup) (former : κ) :
    (r.unlinkName tag former).byName.keys.Nodup := by
  unfold unlinkName
  split
  · exact Table.nodup_remove h _
  · exact h.sublist (List.filter_sublist.map Prod.fst)

/-- An entry that is found by its present name loses that name alone, any other entry all names
under which it is found. -/
theorem byName_unlinkName_iff (h : r.byName.keys.Nodup) (former : κ) :
    (r.unlinkName tag former).byName.get? name = some x ↔ r.byName.get? name = some x ∧
      (x = former → r.byName.get? (tag former).name = some former ∧ name ≠ (tag former).name) := by
  unfold unlinkName
  split
  case isTrue hown =>
    rw [Table.get?_remove]
    split
    case isTrue heq =>
      rw [heq, hown]
      simp [eq_comm]
    case isFalse hne => simp [hown, hne]
  case isFalse hother =>
    rw [Table.get?_filter h]
    simp [hother]

/-- The registry in which the holder of an id has lost its name. -/
def freed (r : Registry κ) (tag : κ → Tag) (id : String) : Registry κ :=
  match r.byId.get? id with
  | some former => r.unlinkName tag former
  | none => r

theorem byId_freed (id : String) : (r.freed tag id).byId = r.byId := by
  unfold freed
  split
  · exact byId_unlinkName _
  · rfl

/-- The entries by id once the former holder of a name has lost its id. -/
def without (r : Registry κ) (tag : κ → Tag) (name : String) : Table String κ :=
  match r.byName.get? name with
  | some former => r.byId.remove (tag former).id
  | none => r.byId

theorem set_eq : r.set tag k =
    ⟨((r.freed tag (tag k).id).without tag (tag k).name).put (tag k).id k,
      (r.freed tag (tag k).id).byName.put (tag k).name k⟩ := rfl

theorem set_of_new (h : r.byId.get? (tag k).id = none) :
    r.set tag k =
      ⟨(r.without tag (tag k).name).put (tag k).id k, r.byName.put (tag k).name k⟩ := by
  rw [set_eq, freed, h]

omit [DecidableEq κ] in
theorem byId_without (name id : String) :
    (r.without tag name).get? id =
      if (r.byName.get? name).map (fun former => (tag former).id) = some id then none
      else r.byId.get? id := by
  unfold without
  cases r.byName.get? name with
  | none => rfl
  | some former =>
    simp only [Table.get?_remove, Option.map_some, Option.some.injEq]
    by_cases h : id = (tag former).id
    · rw [if_pos h, if_pos h.symm]
    · rw [if_neg h, if_neg (Ne.symm h)]

/-- An id that is neither the entry's own nor that of the former holder of its name stays. -/
theorem byId_set_of_ne (h : r.byId.get? (tag k).id = none) {id : String} (hid : id ≠ (tag k).id)
    (hformer : ∀ former, r.byName.get? (tag k).name = some former → (tag former).id ≠ id) :
    (r.set tag k).byId.get? id = r.byId.get? id := by
  rw [set_of_new h]
  simp only [Table.get?_put, if_neg hid, byId_without]
  refine if_neg fun hmap => ?_
  obtain ⟨former, hget, heq⟩ := Option.map_eq_some_iff.mp hmap
  exact hformer former hget heq

theorem byId_set_self (r : Registry κ) (tag : κ → Tag) (k : κ) :
    (r.set tag k).byId.get? (tag k).id = some k := by
  simp [set, Table.get?_put]

theorem byName_set_self (r : Registry κ) (tag : κ → Tag) (k : κ) :
    (r.set tag k).byName.get? (tag k).name = some k := by
  simp [set, Table.get?_put]

theorem byName_set_of_ne (h : r.byId.get? (tag k).id = none) {name : String}
    (hname : name ≠ (tag k).name) : (r.set tag k).byName.get? name = r.byName.get? name := by
  rw [set_of_new h]
  simp only [Table.get?_put, if_neg hname]

/-- Every entry by id after a set is the new one or was there before. -/
theorem mem_byId_set {entry : String × κ} (h : entry ∈ (r.set tag k).byId.entries) :
    entry = ((tag k).id, k) ∨ entry ∈ r.byId.entries := by
  rw [set_eq] at h
  refine (Table.mem_entries_put h).imp id fun hmem => ?_
  rw [← byId_freed (r := r) (tag k).id]
  unfold without at hmem
  split at hmem
  · exact (Table.mem_entries_remove.mp hmem).1
  · exact hmem

theorem nodup_byId_set (h : r.byId.keys.Nodup) : (r.set tag k).byId.keys.Nodup := by
  rw [set_eq]
  rw [← byId_freed (tag k).id] at h
  refine Table.nodup_put ?_ _ _
  unfold without
  split
  · exact Table.nodup_remove h _
  · exact h

theorem mem_byId_foldl_set {ks : List κ} {entry : String × κ}
    (h : entry ∈ (ks.foldl (fun r k => r.set tag k) r).byId.entries) :
    entry ∈ r.byId.entries ∨ ∃ k ∈ ks, entry = ((tag k).id, k) := by
  induction ks generalizing r with
  | nil => exact Or.inl h
  | cons k ks ih =>
    rcases ih h with hset | ⟨q, hq, heq⟩
    · rcases mem_byId_set hset with rfl | hold
      · exact Or.inr ⟨k, List.mem_cons_self, rfl⟩
      · exact Or.inl hold
    · exact Or.inr ⟨q, List.mem_cons_of_mem _ hq, heq⟩

theorem nodup_byId_foldl_set {ks : List κ} (h : r.byId.keys.Nodup) :
    (ks.foldl (fun r k => r.set tag k) r).byId.keys.Nodup := by
  induction ks generalizing r with
  | nil => exact h
  | cons k ks ih => exact ih (nodup_byId_set h)

theorem byId_pop (id : String) : (r.pop tag k).byId.get? id =
    if id = (tag k).id then none else r.byId.get? id := by
  rw [pop, byId_unlinkName, Table.get?_remove]

theorem pop_byName : (r.pop tag k).byName = (r.unlinkName tag k).byName := by
  simp only [pop, unlinkName]
  split <;> rfl

theorem nodup_byId_pop (h : r.byId.keys.Nodup) : (r.pop tag k).byId.keys.Nodup := by
  rw [pop, byId_unlinkName]
  exact Table.nodup_remove h _

/-- A registry whose two maps belong together: an entry found by id is found under its own id, and
an entry found by a name is found by its id and under no other name. -/
structure Paired (tag : κ → Tag) (r : Registry κ) : Prop where
  nodup : r.byName.keys.Nodup
  own_id : ∀ id x, r.byId.get? id = some x → (tag x).id = id
  found : ∀ name x, r.byName.get? name = some x → r.byId.get? (tag x).id = some x
  once : ∀ name name' x, r.byName.get? name = some x → r.byName.get? name' = some x → name = name'

namespace Paired

omit [DecidableEq κ] in
theorem empty (tag : κ → Tag) : Paired tag .empty := by
  constructor <;> simp [Registry.empty, Table.empty, Table.get?, Table.keys]

omit [DecidableEq κ] in
/-- Names play no part: what belongs together does so under any other names of the entries. -/
theorem of_ids (h : Paired tag r) {tag' : κ → Tag} (hids : ∀ x, (tag' x).id = (tag x).id) :
    Paired tag' r :=
  ⟨h.nodup, fun id x hx => (hids x).trans (h.own_id id x hx),
    fun name x hx => (hids x).symm ▸ h.found name x hx, h.once⟩

/-- Unlinking the name of an entry takes the one name away under which it is found. -/
theorem byName_unlinkName (h : Paired tag r) (former : κ) :
    (r.unlinkName tag former).byName.get? name = some x ↔
      r.byName.get? name = some x ∧ x ≠ former := by
  rw [byName_unlinkName_iff h.nodup]
  refine and_congr_right fun hx => ⟨fun hkept heq => ?_, fun hne heq => absurd heq hne⟩
  obtain ⟨hown, hname⟩ := hkept heq
  exact hname (h.once _ _ x hx (heq ▸ hown))

/-- Nothing is found by name any more for an id that is freed. -/
theorem byName_freed (h : Paired tag r) (id : String) :
    (r.freed tag id).byName.get? name = some x ↔
      r.byName.get? name = some x ∧ (tag x).id ≠ id := by
  unfold freed
  cases hk : r.byId.get? id with
  | some former =>
    rw [h.byName_unlinkName]
    refine and_congr_right fun hx => not_congr ?_
    constructor
    · rintro rfl
      exact h.own_id id x hk
    · intro hid
      have hfound := h.found name x hx
      rw [hid, hk] at hfound
      exact (Option.some.inj hfound).symm
  | none =>
    refine ⟨fun hx => ⟨hx, fun hid => ?_⟩, And.left⟩
    have hfound := h.found name x hx
    rw [hid, hk] at hfound
    exact absurd hfound (by simp)

theorem byName_set (h : Paired tag r) : (r.set tag k).byName.get? name = some x ↔
    name = (tag k).name ∧ x = k ∨
      name ≠ (tag k).name ∧ r.byName.get? name = some x ∧ (tag x).id ≠ (tag k).id := by
  rw [set_eq, Table.get?_put]
  by_cases hname : name = (tag k).name
  · simp [hname, eq_comm]
  · rw [if_neg hname, h.byName_freed]
    simp [hname]

/-- An entry loses its id when another takes the name under which it is found. -/
theorem byId_set (h : Paired tag r) {id : String} : (r.set tag k).byId.get? id = some x ↔
    id = (tag k).id ∧ x = k ∨
      id ≠ (tag k).id ∧ r.byId.get? id = some x ∧ r.byName.get? (tag k).name ≠ some x := by
  rw [set_eq, Table.get?_put]
  by_cases hid : id = (tag k).id
  · simp [hid, eq_comm]
  · rw [if_neg hid, byId_without, byId_freed]
    simp only [hid, false_and, false_or, ne_eq, not_false_eq_true, true_and]
    constructor
    · intro hx
      split at hx
      · exact absurd hx (by simp)
      case isFalse hfree =>
        refine ⟨hx, fun hname => hfree ?_⟩
        have hown := h.own_id id x hx
        rw [(h.byName_freed _).mpr ⟨hname, hown ▸ hid⟩]
        exact congrArg some hown
    · rintro ⟨hx, hname⟩
      rw [if_neg fun hmap => ?_, hx]
      obtain ⟨y, hy, hyid⟩ := Option.map_eq_some_iff.mp hmap
      obtain ⟨hy, _⟩ := (h.byName_freed _).mp hy
      have hfound := h.found _ y hy
      rw [hyid, hx] at hfound
      exact hname (Option.some.inj hfound ▸ hy)

theorem nodup_byName_set (h : Paired tag r) : (r.set tag k).byName.keys.Nodup := by
  rw [set_eq]
  refine Table.nodup_put ?_ _ _
  unfold freed
  split
  · exact nodup_byName_unlinkName h.nodup _
  · exact h.nodup

theorem set (h : Paired tag r) (k : κ) : Paired tag (r.set tag k) := by
  constructor
  case nodup => exact h.nodup_byName_set
  case own_id =>
    intro id x hx
    rcases h.byId_set.mp hx with ⟨rfl, rfl⟩ | ⟨_, hold, _⟩
    · rfl
    · exact h.own_id id x hold
  case found =>
    intro name x hx
    rcases h.byName_set.mp hx with ⟨_, rfl⟩ | ⟨hne, hold, hid⟩
    · exact h.byId_set.mpr (Or.inl ⟨rfl, rfl⟩)
    · refine h.byId_set.mpr (Or.inr ⟨hid, h.found name x hold, fun htaken => hne ?_⟩)
      exact h.once _ _ x hold htaken
  case once =>
    intro name name' x hx hx'
    rcases h.byName_set.mp hx with ⟨rfl, rfl⟩ | ⟨_, hold, hid⟩
    · rcases h.byName_set.mp hx' with ⟨rfl, _⟩ | ⟨_, _, hid⟩
      · rfl
      · exact absurd rfl hid
    · rcases h.byName_set.mp hx' with ⟨_, rfl⟩ | ⟨_, hold', _⟩
      · exact absurd rfl hid
      · exact h.once _ _ x hold hold'

/-- An entry that is popped is not found by its name any more, nor any entry by its id. -/
theorem byName_pop (h : Paired tag r) :
    (r.pop tag k).byName.get? name = some x ↔ r.byName.get? name = some x ∧ x ≠ k := by
  rw [← h.byName_unlinkName k, pop_byName]

/-- Popping an entry keeps the two maps together unless another entry holds its id. -/
theorem pop (h : Paired tag r)
    (hk : r.byId.get? (tag k).id = some k ∨ r.byId.get? (tag k).id = none) :
    Paired tag (r.pop tag k) := by
  constructor
  case nodup =>
    rw [pop_byName]
    exact nodup_byName_unlinkName h.nodup k
  case own_id =>
    intro id x hx
    rw [byId_pop] at hx
    split at hx
    · exact absurd hx (by simp)
    · exact h.own_id id x hx
  case found =>
    intro name x hx
    obtain ⟨hx, hne⟩ := h.byName_pop.mp hx
    have hfound := h.found name x hx
    rw [byId_pop, if_neg ?_, hfound]
    intro hid
    rw [hid] at hfound
    rcases hk with hself | hnone
    · exact hne (Option.some.inj (hfound.symm.trans hself))
    · exact absurd (hfound.symm.trans hnone) (by simp)
  case once =>
    intro name name' x hx hx'
    exact h.once _ _ x (h.byName_pop.mp hx).1 (h.byName_pop.mp hx').1

/-! ### The order and the number of the entries -/

omit [DecidableEq κ] in
/-- When every entry that is found by id has a name, as many are found by id as by name. -/
theorem size_eq (h : Paired tag r) (hids : r.byId.keys.Nodup)
    (hnamed : ∀ id x, r.byId.get? id = some x → ∃ name, r.byName.get? name = some x) :
    r.byName.size = r.size := by
  have hbyId : r.byId.values.Nodup := Table.nodup_values hids fun id id' x hx hx' =>
    (h.own_id id x hx).symm.trans (h.own_id id' x hx')
  have hbyName : r.byName.values.Nodup := Table.nodup_values h.nodup h.once
  have hperm : r.byName.values.Perm r.byId.values := by
    refine (List.perm_ext_iff_of_nodup hbyName hbyId).mpr fun x => ?_
    rw [Table.mem_values_iff h.nodup, Table.mem_values_iff hids]
    constructor
    · rintro ⟨name, hx⟩
      exact ⟨_, h.found name x hx⟩
    · rintro ⟨id, hx⟩
      exact hnamed id x hx
  simpa [Table.values, Table.size, size] using hperm.length_eq

theorem entries_without (h : Paired tag r) (hids : r.byId.keys.Nodup) (id name : String) :
    ((r.freed tag id).without tag name).entries = r.byId.entries.filter fun entry =>
      r.byName.get? name ≠ some entry.2 ∨ r.byId.get? id = some entry.2 := by
  unfold without
  cases hget : (r.freed tag id).byName.get? name with
  | none =>
    rw [byId_freed, eq_comm, List.filter_eq_self]
    intro entry hentry
    have hid := Table.get?_of_mem hids hentry
    simp only [decide_eq_true_eq]
    by_contra hnot
    obtain ⟨hname, hheld⟩ := not_or.mp hnot
    have hname := not_not.mp hname
    refine absurd ((h.byName_freed id).mpr ⟨hname, fun hown => hheld ?_⟩) (by simp [hget])
    rw [← hown, h.own_id _ _ hid]
    exact hid
  | some former =>
    obtain ⟨hname, hfree⟩ := (h.byName_freed id).mp hget
    change (r.freed tag id).byId.entries.filter _ = _
    rw [byId_freed]
    refine List.filter_congr fun entry hentry => ?_
    have hid := Table.get?_of_mem hids hentry
    have hown := h.own_id _ _ hid
    have hsame : entry.1 = (tag former).id ↔ former = entry.2 := by
      constructor
      · intro heq
        rw [heq, h.found name former hname] at hid
        exact Option.some.inj hid
      · rintro rfl
        exact hown.symm
    by_cases hformer : former = entry.2
    · have hheld : r.byId.get? id ≠ some entry.2 := fun hheld =>
        hfree (hformer ▸ h.own_id id _ hheld)
      simp [hname, hsame.mpr hformer, hformer, hheld]
    · simp [hname, mt hsame.mp hformer, hformer]

/-- Setting an entry drops the former holder of its name, unless that is the former holder of its
id: whose place the entry takes. It goes to the end when its id is new. -/
theorem nodes_set (h : Paired tag r) (hids : r.byId.keys.Nodup) (k : κ) :
    (r.set tag k).nodes =
      ((r.nodes.filter fun x => r.byName.get? (tag k).name ≠ some x ∨
          r.byId.get? (tag k).id = some x).map fun x =>
        if r.byId.get? (tag k).id = some x then k else x) ++
      if r.hasId (tag k).id then [] else [k] := by
  have hentries := h.entries_without hids (tag k).id (tag k).name
  have hkeys : ((r.freed tag (tag k).id).without tag (tag k).name).keys.Nodup := by
    rw [Table.keys, hentries]
    exact hids.sublist (List.filter_sublist.map Prod.fst)
  have hget : ((r.freed tag (tag k).id).without tag (tag k).name).get? (tag k).id =
      r.byId.get? (tag k).id := by
    ext x
    rw [Table.get?, hentries, ← Table.get?, Table.get?_filter hids]
    simp +contextual
  rw [nodes, set_eq, Table.values_put hkeys, Table.has, hget, hentries, nodes, Table.values,
    List.filter_map, List.map_map]
  refine congrArg₂ _ (List.map_congr_left fun entry hentry => if_congr ?_ rfl rfl) rfl
  have hid := Table.get?_of_mem hids (List.mem_of_mem_filter hentry)
  have hown := h.own_id _ _ hid
  constructor
  · rintro heq
    rw [← heq, hid]
  · intro hheld
    rw [← hown, h.own_id _ _ hheld]

end Paired

end Mailroom.Label.Registry
