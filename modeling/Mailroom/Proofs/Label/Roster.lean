import Mailroom.Proofs.Label.Pairing

/-! Registries over time. Entries are set, popped and renamed in any order; several of them may have
the same id, and one that is renamed stays under the name it was set with. As long as no entry is
popped while another holds its id, every entry that is found by id is found under the one name that
it had when it was last set, and the other way round. -/

namespace Mailroom.Label

/-- What can happen to a registry and to entries, registered or not. -/
inductive Change (κ : Type)
  | set (k : κ)
  | pop (k : κ)
  | popById (id : String)
  | popByName (name : String)
  | clear
  | rename (k : κ) (name : String)

/-- A registry with the present ids and names of all entries. The names that entries had when they
were last set are recorded beside it; the registry itself does not know them. -/
structure Roster (κ : Type) where
  registry : Registry κ
  tag : κ → Tag
  given : κ → Option String

namespace Roster

variable {κ : Type}

/-- Nothing is registered yet. -/
def opening (tag : κ → Tag) : Roster κ := ⟨.empty, tag, fun _ => none⟩

variable [DecidableEq κ]

/-- The roster after a change. Popping what is not found changes nothing. -/
def apply (s : Roster κ) : Change κ → Roster κ
  | .set k =>
    { s with
      registry := s.registry.set s.tag k
      given := Function.update s.given k (some (s.tag k).name) }
  | .pop k => { s with registry := s.registry.pop s.tag k }
  | .popById id =>
    match s.registry.popById s.tag id with
    | .ok (_, registry) => { s with registry }
    | .error _ => s
  | .popByName name =>
    match s.registry.popByName s.tag name with
    | .ok (_, registry) => { s with registry }
    | .error _ => s
  | .clear => { s with registry := .empty }
  | .rename k name => { s with tag := Function.update s.tag k { s.tag k with name } }

def run (s : Roster κ) (changes : List (Change κ)) : Roster κ := changes.foldl apply s

/-- An entry may be popped when it is registered itself or no entry has its id. -/
def Permits (s : Roster κ) : Change κ → Prop
  | .pop k =>
    s.registry.byId.get? (s.tag k).id = some k ∨ s.registry.byId.get? (s.tag k).id = none
  | _ => True

instance (s : Roster κ) (change : Change κ) : Decidable (s.Permits change) := by
  cases change <;> unfold Permits <;> infer_instance

/-- Whether every change of a sequence is permitted when its turn comes. -/
def Admits : Roster κ → List (Change κ) → Prop
  | _, [] => True
  | s, change :: rest => s.Permits change ∧ (s.apply change).Admits rest

instance decidableAdmits : (s : Roster κ) → (changes : List (Change κ)) →
    Decidable (s.Admits changes)
  | _, [] => inferInstanceAs (Decidable True)
  | s, change :: rest =>
    have := decidableAdmits (s.apply change) rest
    inferInstanceAs (Decidable (s.Permits change ∧ (s.apply change).Admits rest))

/-- What every permitted change keeps: the two maps belong together, each entry that is found by id
has a name there, and names are those that were recorded. -/
structure Kept (s : Roster κ) : Prop where
  paired : s.registry.Paired s.tag
  ids : s.registry.byId.keys.Nodup
  named : ∀ id x, s.registry.byId.get? id = some x → ∃ name, s.registry.byName.get? name = some x
  given : ∀ name x, s.registry.byName.get? name = some x → s.given x = some name

namespace Kept

variable {s : Roster κ} {k : κ}

omit [DecidableEq κ] in
theorem empty (tag : κ → Tag) (given : κ → Option String) : Kept ⟨.empty, tag, given⟩ := by
  refine ⟨.empty tag, ?_, ?_, ?_⟩ <;>
    simp [Registry.empty, Table.empty, Table.get?, Table.keys]

theorem set (h : s.Kept) (k : κ) : (s.apply (.set k)).Kept := by
  refine ⟨h.paired.set k, Registry.nodup_byId_set h.ids, fun id x hx => ?_, fun name x hx => ?_⟩
  · rcases h.paired.byId_set.mp hx with ⟨_, rfl⟩ | ⟨hne, hold, hfree⟩
    · exact ⟨_, Registry.byName_set_self _ _ _⟩
    · obtain ⟨name, hname⟩ := h.named id x hold
      refine ⟨name, h.paired.byName_set.mpr (Or.inr ⟨?_, hname, ?_⟩)⟩
      · rintro rfl
        exact hfree hname
      · rwa [h.paired.own_id id x hold]
  · rcases h.paired.byName_set.mp hx with ⟨rfl, rfl⟩ | ⟨_, hold, hid⟩
    · exact Function.update_self _ _ _
    · have hne : x ≠ k := by
        rintro rfl
        exact hid rfl
      exact (Function.update_of_ne hne _ _).trans (h.given name x hold)

theorem pop (h : s.Kept) (hk : s.Permits (.pop k)) : (s.apply (.pop k)).Kept := by
  refine ⟨h.paired.pop hk, Registry.nodup_byId_pop h.ids, fun id x hx => ?_, fun name x hx => ?_⟩
  · change (s.registry.pop s.tag k).byId.get? id = some x at hx
    rw [Registry.byId_pop] at hx
    split at hx
    case isTrue => exact absurd hx (by simp)
    case isFalse hne =>
      obtain ⟨name, hname⟩ := h.named id x hx
      refine ⟨name, h.paired.byName_pop.mpr ⟨hname, ?_⟩⟩
      rintro rfl
      exact hne (h.paired.own_id id x hx).symm
  · exact h.given name x (h.paired.byName_pop.mp hx).1

/-- A name says nothing about what is registered until its entry is set. -/
theorem rename (h : s.Kept) (k : κ) (name : String) : (s.apply (.rename k name)).Kept := by
  refine ⟨h.paired.of_ids fun x => ?_, h.ids, h.named, h.given⟩
  change (Function.update s.tag k { s.tag k with name } x).id = (s.tag x).id
  by_cases hx : x = k
  · rw [hx, Function.update_self]
  · rw [Function.update_of_ne hx]

theorem apply (h : s.Kept) {change : Change κ} (hpermits : s.Permits change) :
    (s.apply change).Kept := by
  cases change with
  | set k => exact h.set k
  | pop k => exact h.pop hpermits
  | popById id =>
    simp only [Roster.apply, Registry.popById]
    cases hget : s.registry.getById id with
    | error _ => exact h
    | ok k =>
      have hfound := Registry.getById_eq_ok.mp hget
      exact h.pop (Or.inl (by rwa [h.paired.own_id id k hfound]))
  | popByName name =>
    simp only [Roster.apply, Registry.popByName]
    cases hget : s.registry.getByName name with
    | error _ => exact h
    | ok k => exact h.pop (Or.inl (h.paired.found name k (Registry.getByName_eq_ok.mp hget)))
  | clear => exact empty s.tag s.given
  | rename k name => exact h.rename k name

theorem run (h : s.Kept) {changes : List (Change κ)} (hadmits : s.Admits changes) :
    (s.run changes).Kept := by
  induction changes generalizing s with
  | nil => exact h
  | cons change rest ih => exact ih (h.apply hadmits.1) hadmits.2

omit [DecidableEq κ] in
/-- An entry that is found by id is found by one name, the one that was recorded. -/
theorem found_once (h : s.Kept) {id : String} {x : κ} (hx : s.registry.byId.get? id = some x) :
    ∃ name, s.given x = some name ∧ ∀ n, s.registry.byName.get? n = some x ↔ n = name := by
  obtain ⟨name, hname⟩ := h.named id x hx
  refine ⟨name, h.given name x hname, fun n => ⟨fun hn => ?_, ?_⟩⟩
  · exact h.paired.once n name x hn hname
  · rintro rfl
    exact hname

/-- Setting an entry leaves every other one alone, the former holders of its id and of its name
apart. -/
theorem found_set_of_ne (h : s.Kept) {x : κ} (hx : x ≠ k)
    (hid : s.registry.byId.get? (s.tag k).id ≠ some x)
    (hname : s.registry.byName.get? (s.tag k).name ≠ some x) :
    (∀ id, (s.registry.set s.tag k).byId.get? id = some x ↔ s.registry.byId.get? id = some x) ∧
      ∀ name, (s.registry.set s.tag k).byName.get? name = some x ↔
        s.registry.byName.get? name = some x := by
  refine ⟨fun id => ?_, fun name => ?_⟩
  · rw [h.paired.byId_set]
    constructor
    · rintro (⟨_, rfl⟩ | ⟨_, hold, _⟩)
      · exact absurd rfl hx
      · exact hold
    · intro hold
      refine Or.inr ⟨?_, hold, hname⟩
      rintro rfl
      exact hid hold
  · rw [h.paired.byName_set]
    constructor
    · rintro (⟨_, rfl⟩ | ⟨_, hold, _⟩)
      · exact absurd rfl hx
      · exact hold
    · intro hold
      refine Or.inr ⟨?_, hold, fun heq => ?_⟩
      · rintro rfl
        exact hname hold
      · have hfound := h.paired.found name x hold
        rw [heq] at hfound
        exact hid hfound

end Kept

/-- How a registry stands after changes, and what setting one more entry does to it. -/
theorem pair_over_changes (tag : κ → Tag) (changes : List (Change κ))
    (hadmits : (opening tag).Admits changes) :
    let s := (opening tag).run changes
    (∀ id x, s.registry.getById id = .ok x → (s.tag x).id = id ∧
      ∃ name, s.given x = some name ∧ ∀ n, s.registry.getByName n = .ok x ↔ n = name) ∧
    (∀ name x, s.registry.getByName name = .ok x → s.registry.getById (s.tag x).id = .ok x) ∧
    s.registry.byName.size = s.registry.size ∧
    ∀ k, let t := s.registry.set s.tag k
      t.getById (s.tag k).id = .ok k ∧ t.getByName (s.tag k).name = .ok k ∧
      (∀ x, x ≠ k → s.registry.getById (s.tag k).id ≠ .ok x →
        s.registry.getByName (s.tag k).name ≠ .ok x →
        (∀ id, t.getById id = .ok x ↔ s.registry.getById id = .ok x) ∧
          ∀ name, t.getByName name = .ok x ↔ s.registry.getByName name = .ok x) ∧
      t.nodes =
        ((s.registry.nodes.filter fun x => s.registry.byName.get? (s.tag k).name ≠ some x ∨
            s.registry.byId.get? (s.tag k).id = some x).map fun x =>
          if s.registry.byId.get? (s.tag k).id = some x then k else x) ++
        if s.registry.hasId (s.tag k).id then [] else [k] := by
  intro s
  have h : s.Kept := (Kept.empty tag _).run hadmits
  simp only [ne_eq, Registry.getById_eq_ok, Registry.getByName_eq_ok]
  refine ⟨fun id x hx => ⟨h.paired.own_id id x hx, h.found_once hx⟩, h.paired.found,
    h.paired.size_eq h.ids h.named, fun k => ?_⟩
  exact ⟨Registry.byId_set_self _ _ _, Registry.byName_set_self _ _ _,
    fun x hx hid hname => h.found_set_of_ne hx hid hname, h.paired.nodes_set h.ids k⟩

/-- An entry takes the id of another that was renamed meanwhile, and loses it to a third that takes
its name. -/
theorem pair_over_changes_renamed :
    let tag : Fin 3 → Tag := fun
      | 0 => ⟨"L1", "Work"⟩
      | 1 => ⟨"L2", "Home"⟩
      | 2 => ⟨"L1", "Trips"⟩
    let changes : List (Change (Fin 3)) :=
      [.set 0, .set 1, .rename 0 "Home", .set 2, .rename 1 "Trips"]
    let s := (opening tag).run changes
    (opening tag).Admits changes ∧ s.registry.getById "L1" = .ok 2 ∧
      (∃ name, s.given 2 = some name ∧ ∀ n, s.registry.getByName n = .ok 2 ↔ n = name) ∧
      s.registry.byName.size = s.registry.size ∧ s.registry.nodes = [2, 1] ∧
      (s.registry.set s.tag 1).getByName "Trips" = .ok 1 ∧
      (s.registry.set s.tag 1).nodes = [1] := by
  intro tag changes s
  have hadmits : (opening tag).Admits changes := by decide +kernel
  have hfound : s.registry.getById "L1" = .ok 2 := by
    rw [Registry.getById_eq_ok]
    decide +kernel
  obtain ⟨hids, -, hsize, hset⟩ := pair_over_changes tag changes hadmits
  obtain ⟨-, hname, -, hnodes⟩ := hset 1
  exact ⟨hadmits, hfound, (hids _ _ hfound).2, hsize, by decide +kernel, hname,
    hnodes.trans (by decide +kernel)⟩

end Roster

end Mailroom.Label
