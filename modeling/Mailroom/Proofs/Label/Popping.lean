import Mailroom.Proofs.Label.Roster

/-! Popping entries that are not registered themselves. An entry that is popped takes its id away
from whatever holds it, but only itself from the names. So every entry that is found by id is found
by the name it had when it was last set, whatever was popped before, while an entry whose id was
popped by another stays behind under its name: it strays. A stray that is renamed and set again is
found by two names, and then even popping itself leaves one of them. -/

namespace Mailroom.Label

variable {κ : Type}

namespace Registry

variable {tag : κ → Tag} {r : Registry κ}

/-- The two directions of a registry agree: what is found by id is what is found by name, each entry
by its own id and by one name. -/
structure InStep (tag : κ → Tag) (r : Registry κ) : Prop where
  own_id : ∀ id x, r.getById id = .ok x → (tag x).id = id
  same : ∀ x, (∃ id, r.getById id = .ok x) ↔ ∃ name, r.getByName name = .ok x
  once : ∀ name name' x, r.getByName name = .ok x → r.getByName name' = .ok x → name = name'

/-- An entry that is found by a name but not by its id. -/
def Stray (tag : κ → Tag) (r : Registry κ) (x : κ) : Prop :=
  (∃ name, r.getByName name = .ok x) ∧ r.getById (tag x).id ≠ .ok x

/-- A registry that is in step but for one entry: every other entry that is found by name is found
by its id, which is not that of the one, and by no second name; and the one has no name besides its
present one if it is found by that. -/
structure InStepWithout (tag : κ → Tag) (r : Registry κ) (k : κ) : Prop where
  others : ∀ name x, r.getByName name = .ok x → x ≠ k →
    (tag x).id ≠ (tag k).id ∧ r.getById (tag x).id = .ok x ∧
      ∀ other, r.getByName other = .ok x → other = name
  own_name : r.getByName (tag k).name = .ok k →
    ∀ name, r.getByName name = .ok k → name = (tag k).name

theorem InStep.byId_of_byName (h : r.InStep tag) {name : String} {x : κ}
    (hx : r.getByName name = .ok x) : r.getById (tag x).id = .ok x := by
  obtain ⟨id, hid⟩ := (h.same x).mpr ⟨name, hx⟩
  rwa [h.own_id id x hid]

variable [DecidableEq κ] {k x : κ} {id name : String}

theorem byId_pop_iff : (r.pop tag k).byId.get? id = some x ↔
    id ≠ (tag k).id ∧ r.byId.get? id = some x := by
  rw [byId_pop]
  by_cases hid : id = (tag k).id <;> simp [hid]

theorem byName_pop_iff (h : r.byName.keys.Nodup) : (r.pop tag k).byName.get? name = some x ↔
    r.byName.get? name = some x ∧
      (x = k → r.byName.get? (tag k).name = some k ∧ name ≠ (tag k).name) := by
  rw [pop_byName, byName_unlinkName_iff h]

theorem getById_pop : (r.pop tag k).getById id = .ok x ↔
    id ≠ (tag k).id ∧ r.getById id = .ok x := by
  simp only [getById_eq_ok, byId_pop_iff]

theorem getByName_pop (h : r.byName.keys.Nodup) : (r.pop tag k).getByName name = .ok x ↔
    r.getByName name = .ok x ∧
      (x = k → r.getByName (tag k).name = .ok k ∧ name ≠ (tag k).name) := by
  simp only [getByName_eq_ok, byName_pop_iff h]

end Registry

namespace Roster

variable [DecidableEq κ] {s : Roster κ} {k : κ}

/-- What every change keeps, whatever is popped: an entry that is found by id is found by its own,
and by the name that was recorded. -/
structure Anchored (s : Roster κ) : Prop where
  nodup : s.registry.byName.keys.Nodup
  own_id : ∀ id x, s.registry.byId.get? id = some x → (s.tag x).id = id
  named : ∀ id x, s.registry.byId.get? id = some x →
    ∃ name, s.given x = some name ∧ s.registry.byName.get? name = some x

namespace Anchored

omit [DecidableEq κ] in
theorem empty (tag : κ → Tag) (given : κ → Option String) : Anchored ⟨.empty, tag, given⟩ := by
  constructor <;> simp [Registry.empty, Table.empty, Table.get?, Table.keys]

theorem nodup_freed (h : s.Anchored) (id : String) :
    (s.registry.freed s.tag id).byName.keys.Nodup := by
  unfold Registry.freed
  split
  · exact Registry.nodup_byName_unlinkName h.nodup _
  · exact h.nodup

/-- Freeing an id leaves the names of entries with other ids. -/
theorem byName_freed (h : s.Anchored) (id : String) {name : String} {x : κ}
    (hid : (s.tag x).id ≠ id) (hx : s.registry.byName.get? name = some x) :
    (s.registry.freed s.tag id).byName.get? name = some x := by
  unfold Registry.freed
  split
  case h_1 former hformer =>
    refine (Registry.byName_unlinkName_iff h.nodup former).mpr ⟨hx, ?_⟩
    rintro rfl
    exact absurd (h.own_id id x hformer) hid
  case h_2 => exact hx

theorem set (h : s.Anchored) (k : κ) : (s.apply (.set k)).Anchored := by
  have hbyId : ∀ id x, (s.registry.set s.tag k).byId.get? id = some x →
      id = (s.tag k).id ∧ x = k ∨ id ≠ (s.tag k).id ∧ s.registry.byId.get? id = some x ∧
        (s.registry.freed s.tag (s.tag k).id).byName.get? (s.tag k).name ≠ some x := by
    intro id x hx
    rw [Registry.set_eq, Table.get?_put] at hx
    split at hx
    case isTrue hid => exact .inl ⟨hid, (Option.some.inj hx).symm⟩
    case isFalse hid =>
      rw [Registry.byId_without, Registry.byId_freed] at hx
      split at hx
      case isTrue => cases hx
      case isFalse hfree =>
        refine .inr ⟨hid, hx, fun htaken => hfree ?_⟩
        rw [htaken, Option.map_some, h.own_id id x hx]
  refine ⟨?_, fun id x hx => ?_, fun id x hx => ?_⟩
  · exact Table.nodup_put (h.nodup_freed _) _ _
  · rcases hbyId id x hx with ⟨rfl, rfl⟩ | ⟨_, hold, _⟩
    · rfl
    · exact h.own_id id x hold
  · rcases hbyId id x hx with ⟨rfl, rfl⟩ | ⟨hne, hold, hfree⟩
    · exact ⟨_, Function.update_self _ _ _, Registry.byName_set_self _ _ _⟩
    · obtain ⟨name, hgiven, hname⟩ := h.named id x hold
      have hown := h.own_id id x hold
      have hxk : x ≠ k := by
        rintro rfl
        exact hne hown.symm
      have hkept := h.byName_freed (s.tag k).id (hown ▸ hne) hname
      refine ⟨name, (Function.update_of_ne hxk _ _).trans hgiven, ?_⟩
      change (s.registry.set s.tag k).byName.get? name = some x
      rw [Registry.set_eq, Table.get?_put, if_neg ?_]
      · exact hkept
      · rintro rfl
        exact hfree hkept

theorem pop (h : s.Anchored) (k : κ) : (s.apply (.pop k)).Anchored := by
  refine ⟨?_, fun id x hx => ?_, fun id x hx => ?_⟩
  · change (s.registry.pop s.tag k).byName.keys.Nodup
    rw [Registry.pop_byName]
    exact Registry.nodup_byName_unlinkName h.nodup k
  · exact h.own_id id x (Registry.byId_pop_iff.mp hx).2
  · obtain ⟨hid, hold⟩ := Registry.byId_pop_iff.mp hx
    obtain ⟨name, hgiven, hname⟩ := h.named id x hold
    refine ⟨name, hgiven, (Registry.byName_pop_iff h.nodup).mpr ⟨hname, ?_⟩⟩
    rintro rfl
    exact absurd (h.own_id id x hold).symm hid

theorem rename (h : s.Anchored) (k : κ) (name : String) :
    (s.apply (.rename k name)).Anchored := by
  refine ⟨h.nodup, fun id x hx => ?_, h.named⟩
  rw [← h.own_id id x hx]
  change (Function.update s.tag k { s.tag k with name } x).id = (s.tag x).id
  by_cases hxk : x = k
  · rw [hxk, Function.update_self]
  · rw [Function.update_of_ne hxk]

theorem apply (h : s.Anchored) (change : Change κ) : (s.apply change).Anchored := by
  cases change with
  | set k => exact h.set k
  | pop k => exact h.pop k
  | popById id =>
    simp only [Roster.apply, Registry.popById]
    cases s.registry.getById id with
    | error _ => exact h
    | ok k => exact h.pop k
  | popByName name =>
    simp only [Roster.apply, Registry.popByName]
    cases s.registry.getByName name with
    | error _ => exact h
    | ok k => exact h.pop k
  | clear => exact empty s.tag s.given
  | rename k name => exact h.rename k name

theorem run (h : s.Anchored) (changes : List (Change κ)) : (s.run changes).Anchored := by
  induction changes generalizing s with
  | nil => exact h
  | cons change rest ih => exact ih (h.apply change)

/-- When the two directions agree once an entry is popped. -/
theorem inStep_pop_iff (h : s.Anchored) (k : κ) :
    (s.registry.pop s.tag k).InStep s.tag ↔ s.registry.InStepWithout s.tag k := by
  have hbyName : ∀ {name x}, (s.registry.pop s.tag k).getByName name = .ok x ↔ _ :=
    Registry.getByName_pop h.nodup
  constructor
  · intro hstep
    refine ⟨fun name x hx hne => ?_, fun hown name hname => ?_⟩
    · have hleft : ∀ {n}, s.registry.getByName n = .ok x →
          (s.registry.pop s.tag k).getByName n = .ok x :=
        fun hn => hbyName.mpr ⟨hn, fun heq => absurd heq hne⟩
      obtain ⟨hid, hfound⟩ := Registry.getById_pop.mp (hstep.byId_of_byName (hleft hx))
      exact ⟨hid, hfound, fun other hother => hstep.once _ _ x (hleft hother) (hleft hx)⟩
    · by_contra hne
      have hleft := hbyName.mpr ⟨hname, fun _ => ⟨hown, hne⟩⟩
      exact (Registry.getById_pop.mp (hstep.byId_of_byName hleft)).1 rfl
  · rintro ⟨hothers, hself⟩
    have hne : ∀ {name x}, (s.registry.pop s.tag k).getByName name = .ok x → x ≠ k := by
      rintro name x hx rfl
      obtain ⟨hname, hkept⟩ := hbyName.mp hx
      obtain ⟨hown, hother⟩ := hkept rfl
      exact hother (hself hown name hname)
    constructor
    case own_id =>
      intro id x hx
      exact h.own_id id x (Registry.getById_eq_ok.mp (Registry.getById_pop.mp hx).2)
    case same =>
      refine fun x => ⟨fun ⟨id, hid⟩ => ?_, fun ⟨name, hname⟩ => ?_⟩
      · obtain ⟨name, -, hname⟩ := (h.pop k).named id x (Registry.getById_eq_ok.mp hid)
        exact ⟨name, Registry.getByName_eq_ok.mpr hname⟩
      · obtain ⟨hid, hfound, -⟩ := hothers name x (hbyName.mp hname).1 (hne hname)
        exact ⟨_, Registry.getById_pop.mpr ⟨hid, hfound⟩⟩
    case once =>
      intro name name' x hx hx'
      obtain ⟨-, -, honce⟩ := hothers name x (hbyName.mp hx).1 (hne hx)
      exact (honce name' (hbyName.mp hx').1).symm

/-- Popping an entry from a registry in step leaves one stray at most: another entry that held its
id. -/
theorem stray_pop_iff (h : s.Anchored) (hstep : s.registry.InStep s.tag) {k x : κ} :
    (s.registry.pop s.tag k).Stray s.tag x ↔
      x ≠ k ∧ s.registry.getById (s.tag k).id = .ok x := by
  constructor
  · rintro ⟨⟨name, hleft⟩, hlost⟩
    obtain ⟨hname, hkept⟩ := (Registry.getByName_pop h.nodup).mp hleft
    have hne : x ≠ k := by
      rintro rfl
      obtain ⟨hown, hother⟩ := hkept rfl
      exact hother (hstep.once _ _ x hname hown)
    have hfound := hstep.byId_of_byName hname
    have hid : (s.tag x).id = (s.tag k).id := by
      by_contra hid
      exact hlost (Registry.getById_pop.mpr ⟨hid, hfound⟩)
    exact ⟨hne, hid ▸ hfound⟩
  · rintro ⟨hne, hheld⟩
    obtain ⟨name, hname⟩ := (hstep.same x).mp ⟨_, hheld⟩
    refine ⟨⟨name, (Registry.getByName_pop h.nodup).mpr ⟨hname, fun heq => absurd heq hne⟩⟩, ?_⟩
    rw [hstep.own_id _ x hheld]
    exact fun hfound => (Registry.getById_pop.mp hfound).1 rfl

/-- Popping an entry keeps a registry in step if and only if it is registered itself or its id is
not. -/
theorem inStep_pop_iff_permits (h : s.Anchored) (hstep : s.registry.InStep s.tag) (k : κ) :
    (s.registry.pop s.tag k).InStep s.tag ↔ s.Permits (.pop k) := by
  rw [h.inStep_pop_iff]
  constructor
  · rintro ⟨hothers, -⟩
    cases hheld : s.registry.byId.get? (s.tag k).id with
    | none => exact .inr hheld
    | some x =>
      have hfound := Registry.getById_eq_ok.mpr hheld
      obtain ⟨name, hname⟩ := (hstep.same x).mp ⟨_, hfound⟩
      by_cases hx : x = k
      · exact .inl (hx ▸ hheld)
      · exact absurd (hstep.own_id _ x hfound) (hothers name x hname hx).1
  · intro hpermits
    refine ⟨fun name x hx hne => ⟨fun hid => ?_, hstep.byId_of_byName hx, fun other hother => ?_⟩,
      fun hown name hname => hstep.once _ _ k hname hown⟩
    · have hheld := Registry.getById_eq_ok.mp (hstep.byId_of_byName hx)
      rw [hid] at hheld
      rcases hpermits with hself | hnone
      · exact hne (Option.some.inj (hheld.symm.trans hself))
      · cases hheld.symm.trans hnone
    · exact hstep.once _ _ x hother hx

end Anchored

omit [DecidableEq κ] in
/-- What permitted changes keep is more than being in step. -/
theorem Kept.inStep (h : s.Kept) : s.registry.InStep s.tag := by
  constructor
  case own_id => exact fun id x hx => h.paired.own_id id x (Registry.getById_eq_ok.mp hx)
  case same =>
    intro x
    simp only [Registry.getById_eq_ok, Registry.getByName_eq_ok]
    constructor
    · rintro ⟨id, hid⟩
      exact h.named id x hid
    · rintro ⟨name, hname⟩
      exact ⟨_, h.paired.found name x hname⟩
  case once =>
    intro name name' x hx hx'
    exact h.paired.once name name' x (Registry.getByName_eq_ok.mp hx)
      (Registry.getByName_eq_ok.mp hx')

/-- What popping an entry leaves behind, after any changes. Every entry that is found by id is found
by its own, and by the name that it was last set with. Whether the two directions agree afterwards
is said exactly. If they agreed before, as they do when no entry was popped while another held its
id, they agree afterwards unless another entry held the id, and that one strays. -/
theorem pop_over_changes (tag : κ → Tag) (changes : List (Change κ)) (k : κ) :
    let s := (opening tag).run changes
    let t := s.registry.pop s.tag k
    (∀ id x, t.getById id = .ok x → (s.tag x).id = id ∧ id ≠ (s.tag k).id ∧
      ∃ name, s.given x = some name ∧ t.getByName name = .ok x) ∧
    (t.InStep s.tag ↔ s.registry.InStepWithout s.tag k) ∧
    (s.registry.InStep s.tag → (t.InStep s.tag ↔ s.Permits (.pop k)) ∧
      ∀ x, t.Stray s.tag x ↔ x ≠ k ∧ s.registry.getById (s.tag k).id = .ok x) ∧
    ((opening tag).Admits changes → s.registry.InStep s.tag) := by
  intro s t
  have h : s.Anchored := (Anchored.empty tag _).run changes
  refine ⟨fun id x hx => ?_, h.inStep_pop_iff k, fun hstep => ?_, fun hadmits => ?_⟩
  · obtain ⟨hid, hfound⟩ := Registry.getById_pop.mp hx
    obtain ⟨name, hgiven, hname⟩ := (h.pop k).named id x (Registry.getById_eq_ok.mp hx)
    exact ⟨h.own_id id x (Registry.getById_eq_ok.mp hfound), hid, name, hgiven,
      Registry.getByName_eq_ok.mpr hname⟩
  · exact ⟨h.inStep_pop_iff_permits hstep k, fun x => h.stray_pop_iff hstep⟩
  · exact ((Kept.empty tag _).run hadmits).inStep

/-- An entry strays when another with its id is popped. Renamed and set again it has two names, and
popping it leaves one of them. -/
theorem pop_over_changes_stray :
    let tag : Fin 2 → Tag := fun
      | 0 => ⟨"L1", "Work"⟩
      | 1 => ⟨"L1", "Home"⟩
    let s := (opening tag).run [.set 0]
    let again := (opening tag).run [.set 0, .pop 1, .rename 0 "Job", .set 0]
    s.registry.InStep s.tag ∧ (s.registry.pop s.tag 1).Stray s.tag 0 ∧
      again.registry.getById "L1" = .ok 0 ∧ ¬(again.registry.pop again.tag 0).InStep again.tag := by
  intro tag s again
  obtain ⟨-, -, hpop, hstep⟩ := pop_over_changes tag [.set 0] 1
  obtain ⟨-, hagain, -, -⟩ :=
    pop_over_changes tag [.set 0, .pop 1, .rename 0 "Job", .set 0] 0
  have hadmits : (opening tag).Admits [.set 0] := by decide +kernel
  have hheld : s.registry.getById "L1" = .ok 0 := by
    rw [Registry.getById_eq_ok]
    decide +kernel
  have hfound : ∀ {name}, again.registry.byName.get? name = some 0 →
      again.registry.getByName name = .ok 0 := Registry.getByName_eq_ok.mpr
  refine ⟨hstep hadmits, ((hpop (hstep hadmits)).2 0).mpr ⟨by decide, hheld⟩, ?_, fun hin => ?_⟩
  · rw [Registry.getById_eq_ok]
    decide +kernel
  · have hname := (hagain.mp hin).own_name (hfound (by decide +kernel)) "Work"
      (hfound (by decide +kernel))
    exact absurd hname (by decide +kernel)

end Roster

end Mailroom.Label
