import Mailroom.Proofs.Label.Nodes
import Mailroom.Proofs.Remote.Store
import Mailroom.Proofs.Session.Refresh

/-! Coherence of a session with the store it works on. The nodes and the loaded labels of categories
are exactly those with the id of a category, and what is kept for a node is its own label.
Refreshing and loading labels keep a session coherent, and a loaded label is the one that was asked
for. -/

namespace Mailroom.Label

/-- Whether the id is that of a category. -/
def isCategoryId (id : String) : Bool := (Category.ofId? id).isSome

/-- A node of a category has the id of one, and what is kept for a node is its own label. -/
structure Node.Coherent (entities : Array Entity) (n : Node) : Prop where
  kind : n.kind = .category ↔ isCategoryId n.id = true
  cached : ∀ e g, n.cached = some (e, g) →
    ∃ x, entities[e.index]? = some x ∧ x.id = n.id ∧ x.kind = n.kind

namespace Node.Coherent

variable {entities : Array Entity} {n : Node}

theorem lasting (entities : Array Entity) : Node.Lasting (Node.Coherent entities) where
  place _ _ _ _ _ h := ⟨h.kind, h.cached⟩
  evict _ h := ⟨h.kind, by rintro _ _ ⟨⟩⟩

theorem push (h : n.Coherent entities) (x : Entity) : n.Coherent (entities.push x) := by
  refine ⟨h.kind, fun e g hcached => ?_⟩
  obtain ⟨old, hold, hid⟩ := h.cached e g hcached
  have hlt : e.index < entities.size := (Array.getElem?_eq_some_iff.mp hold).1
  exact ⟨old, by rw [Array.getElem?_push, if_neg (Nat.ne_of_lt hlt), hold], hid⟩

/-- A listed label of the user gets a node that is no category's. -/
theorem made {records : List Remote.LabelRecord} {l : Tag}
    (hl : l ∈ Session.userLabels records) : (Rebuild.made l).Coherent entities := by
  have hfree := (Bool.or_eq_false_iff.mp (Directory.isFixedId_userLabels hl)).2
  refine ⟨⟨by rintro ⟨⟩, fun hcategory => ?_⟩, by rintro _ _ ⟨⟩⟩
  exact absurd (hfree.symm.trans hcategory) (by decide)

theorem initial (entities : Array Entity) (r : NodeRef) :
    (Directory.initial.node r).Coherent entities := by
  have hnode : (Directory.initial.node r).cached = none ∧
      ((Directory.initial.node r).kind = .category ↔
        isCategoryId (Directory.initial.node r).id = true) :=
    Directory.holds_initial (P := fun n =>
      n.cached = none ∧ (n.kind = .category ↔ isCategoryId n.id = true))
      (by decide +kernel) (by decide +kernel) r
  exact ⟨hnode.2, fun e g h => absurd (hnode.1.symm.trans h) (by simp)⟩

end Node.Coherent

end Mailroom.Label

namespace Mailroom.Label.Directory

variable {d : Directory} {r : NodeRef}

theorem kind?_of_standing {failure : Failure} (h : d.standing r = .error failure) :
    failure.kind? = some .notFound := by
  unfold standing at h
  by_cases hevicted : (d.node r).evicted = true
  · rw [if_pos hevicted] at h
    obtain rfl := Except.error.inj h
    rfl
  · rw [if_neg hevicted] at h
    cases hcached : (d.node r).cached <;> simp [hcached] at h

theorem cached_of_standing {e : EntityRef} (h : d.standing r = .ok (.loaded e)) :
    (d.node r).cached = some (e, d.generation) := by
  unfold standing at h
  by_cases hevicted : (d.node r).evicted = true
  · simp [hevicted] at h
  · rw [if_neg hevicted] at h
    cases hcached : (d.node r).cached with
    | none => simp [hcached] at h
    | some kept =>
      obtain ⟨other, g⟩ := kept
      simp only [hcached, Except.ok.injEq] at h
      split at h
      case isTrue hnow =>
        cases h
        rw [hnow]
      case isFalse => cases h

theorem generation_of_standing {g : Nat} (h : d.standing r = .ok (.missing g)) :
    g = d.generation := by
  unfold standing at h
  by_cases hevicted : (d.node r).evicted = true
  · simp [hevicted] at h
  · rw [if_neg hevicted] at h
    cases hcached : (d.node r).cached with
    | none =>
      simp only [hcached, Except.ok.injEq, Standing.missing.injEq] at h
      exact h.symm
    | some kept =>
      obtain ⟨other, g'⟩ := kept
      simp only [hcached, Except.ok.injEq] at h
      split at h <;> cases h
      rfl

theorem standing_of_older (hliving : (d.node r).evicted = false)
    (h : ∀ e g, (d.node r).cached = some (e, g) → g < d.generation) :
    d.standing r = .ok (.missing d.generation) := by
  simp only [standing, hliving, Bool.false_eq_true, if_false]
  cases hcached : (d.node r).cached with
  | none => rfl
  | some kept =>
    obtain ⟨e, g⟩ := kept
    simp only [if_neg (Nat.ne_of_lt (h e g hcached))]

end Mailroom.Label.Directory

namespace Mailroom.Session

open Label (isCategoryId Directory Entity EntityRef NodeRef)
open Remote (Bench MailService Store)

/-- A session that agrees with the store on what is a category. -/
structure Coherent (s : Session Bench) : Prop where
  stands : ∃ listings, Directory.Stands .initial s.directory listings
  nodes : ∀ r, (s.directory.node r).Coherent s.entities
  entities : ∀ e, s.entityKind e = .category ↔ isCategoryId (s.entityId e) = true
  store : s.outside.store.Sound

/-- What operations that only read do to a session: loaded labels and messages stay as they are, and
nodes keep their ids. -/
structure Reads (s t : Session Bench) : Prop where
  coherent : t.Coherent
  entities : ∀ e x, s.entity? e = some x → t.entity? e = some x
  nodes : ∀ r, s.directory.Has r →
    t.directory.Has r ∧ (t.directory.node r).id = (s.directory.node r).id
  store : s.outside.store.Reads t.outside.store

/-- An operation that failed and changed nothing, and not because a message could not be read. -/
def Refuses (s : Session Bench) (failure : Failure) (t : Session Bench) : Prop :=
  s.Reads t ∧ failure.kind? ≠ some .parse

variable {s t u : Session Bench}

theorem Coherent.reads (h : s.Coherent) : s.Reads s :=
  ⟨h, fun _ _ => id, fun _ hr => ⟨hr, rfl⟩, .refl _⟩

theorem Reads.trans (h : s.Reads t) (h' : t.Reads u) : s.Reads u := by
  refine ⟨h'.coherent, fun e x hx => h'.entities e x (h.entities e x hx), fun r hr => ?_,
    h.store.trans h'.store⟩
  obtain ⟨ht, hid⟩ := h.nodes r hr
  obtain ⟨hu, hid'⟩ := h'.nodes r ht
  exact ⟨hu, hid'.trans hid⟩

theorem Reads.refuses (h : s.Reads t) {failure : Failure} (h' : t.Refuses failure u) :
    s.Refuses failure u := ⟨h.trans h'.1, h'.2⟩

/-- After an operation that only reads, another part of a computation. -/
theorem Reads.andThen {α β : Type} (h : s.Reads t) {x : Op Bench α} {f : α → Op Bench β}
    {done : α → Session Bench → Prop} {next : β → Session Bench → Prop}
    (hx : Call.Ends x t done t.Refuses)
    (hnext : ∀ a u, done a u → Call.Ends (f a) u next s.Refuses) :
    Call.Ends (x >>= f) t next s.Refuses :=
  (hx.imp (fun _ _ h => h) fun _ _ => h.refuses).andThen hnext

/-- The session with another store. -/
def withStore (s : Session Bench) (store : Store) : Session Bench :=
  { s with outside := { s.outside with store } }

theorem Coherent.withStore (h : s.Coherent) {store : Store} (hstore : store.Sound) :
    (s.withStore store).Coherent :=
  ⟨h.stands, h.nodes, h.entities, hstore⟩

theorem Coherent.reads_withStore (h : s.Coherent) {store : Store}
    (hstore : s.outside.store.Reads store) : s.Reads (s.withStore store) :=
  ⟨h.withStore (hstore.sound h.store), fun _ _ => id, fun _ hr => ⟨hr, rfl⟩, hstore⟩

theorem run_onStore {α : Type} (x : Call Store α) (s : Session Bench) :
    (onOutside (Bench.onStore x)).run s =
      ((x.run s.outside.store).1, s.withStore (x.run s.outside.store).2) := rfl

/-- An operation on the store as one of the session. -/
theorem ends_onStore {α : Type} {x : Call Store α} {done : α → Session Bench → Prop}
    {failed : Failure → Session Bench → Prop}
    (h : Call.Ends x s.outside.store (fun a store => done a (s.withStore store))
      fun failure store => failed failure (s.withStore store)) :
    Call.Ends (onOutside (Bench.onStore x)) s done failed := by
  unfold Call.Ends at h ⊢
  rw [run_onStore]
  rcases hx : x.run s.outside.store with ⟨failure | a, store⟩ <;> rw [hx] at h
  · exact h
  · exact h

/-- A session that was just opened on a store. -/
theorem Coherent.fresh (hdirectory : s.directory = .initial) (hentities : s.entities = #[])
    (hstore : s.outside.store.Sound) : s.Coherent := by
  refine ⟨⟨[], ?_⟩, fun r => ?_, fun e => ?_, hstore⟩
  · rw [hdirectory]
    exact Directory.fresh_initial.stands
  · rw [hdirectory]
    exact .initial _ r
  · have hnone : s.entity? e = none := by simp [entity?, hentities]
    rw [entityKind, entityId, hnone]
    decide +kernel

section Labels

/-- A session that loaded a label of a kind that its id is of. -/
theorem Coherent.pushed (h : s.Coherent) {store : Store} (hstore : s.outside.store.Reads store)
    (x : Entity) (hx : x.kind = .category ↔ isCategoryId x.id = true) :
    s.Reads { s.withStore store with entities := s.entities.push x } := by
  have hnew : ∀ e : EntityRef, entity? { s.withStore store with entities := s.entities.push x } e =
      if e.index = s.entities.size then some x else s.entity? e := fun e => Array.getElem?_push
  refine ⟨⟨h.stands, fun r => (h.nodes r).push x, fun e => ?_, hstore.sound h.store⟩,
    fun e old hold => ?_, fun _ hr => ⟨hr, rfl⟩, hstore⟩
  · by_cases he : e.index = s.entities.size
    · have hx' := (hnew e).trans (if_pos he)
      rw [entityKind_of_entity? hx', entityId_of_entity? hx']
      exact hx
    · have hsame := (hnew e).trans (if_neg he)
      have hold := h.entities e
      rw [entityKind, entityId, ← hsame] at hold
      exact hold
  · have hlt : e.index < s.entities.size := (Array.getElem?_eq_some_iff.mp hold).1
    exact (hnew e).trans ((if_neg (Nat.ne_of_lt hlt)).trans hold)

theorem Coherent.refreshed (h : s.Coherent) (records : List Remote.LabelRecord) :
    Coherent { s with directory := (Session.refreshed s.directory records).2 } := by
  obtain ⟨listings, hstands⟩ := h.stands
  refine ⟨⟨_, hstands.refreshed records⟩, fun r => ?_, h.entities, h.store⟩
  exact Directory.holds_rebuild (Label.Node.Coherent.lasting s.entities) hstands.based.keyed
    (h.nodes r) fun l hl => .made hl

theorem Coherent.reads_refreshed (h : s.Coherent) (records : List Remote.LabelRecord) :
    s.Reads { s with directory := (Session.refreshed s.directory records).2 } := by
  obtain ⟨listings, hstands⟩ := h.stands
  exact ⟨h.refreshed records, fun _ _ => id,
    fun r hr => Directory.rebuild_keeps hstands.based.keyed (userLabels records) hr, .refl _⟩

/-- A session that keeps a label of a node's own id and kind for it. -/
theorem Coherent.keep (h : s.Coherent) {r : NodeRef} {e : EntityRef} {x : Entity}
    (hx : s.entity? e = some x) (hid : x.id = (s.directory.node r).id)
    (hkind : x.kind = (s.directory.node r).kind) (g : Nat) :
    Coherent { s with directory := s.directory.keep r e g } := by
  obtain ⟨listings, hstands⟩ := h.stands
  refine ⟨⟨listings, hstands.keep r e g⟩, fun q => ?_, h.entities, h.store⟩
  by_cases hq : q = r
  · subst hq
    by_cases hhas : s.directory.Has q
    · change (Directory.node (s.directory.modifyNode q _) q).Coherent _
      rw [Directory.node_modifyNode_self _ hhas]
      refine ⟨(h.nodes q).kind, fun other g' hcached => ?_⟩
      obtain ⟨rfl, -⟩ := Prod.mk.inj (Option.some.inj hcached)
      exact ⟨x, hx, hid, hkind⟩
    · exact (Directory.node_modifyNode_of_not_has _ hhas).symm ▸ h.nodes q
  · exact (Directory.node_modifyNode_of_ne _ hq).symm ▸ h.nodes q

theorem Coherent.reads_keep (h : s.Coherent) {r : NodeRef} {e : EntityRef} {x : Entity}
    (hx : s.entity? e = some x) (hid : x.id = (s.directory.node r).id)
    (hkind : x.kind = (s.directory.node r).kind) (g : Nat) :
    s.Reads { s with directory := s.directory.keep r e g } :=
  ⟨h.keep hx hid hkind g, fun _ _ => id, fun q hq => ⟨(Directory.has_modifyNode _).mpr hq,
    Directory.field_modifyNode (f := fun n => { n with cached := some (e, g) }) Label.Node.id
      (fun _ => rfl) q⟩, .refl _⟩

variable (hs : s.Coherent)
include hs

theorem refresh_ends : Call.Ends refresh s (fun _ => s.Reads) s.Refuses := by
  have hlist : Call.Ends (onOutside (MailService.listLabels (σ := Bench))) s (fun _ => s.Reads)
      s.Refuses :=
    ends_onStore ((Store.listLabels_ends hs.store).imp (fun _ _ h => hs.reads_withStore h)
      fun _ _ h => ⟨hs.reads_withStore h.1, h.2⟩)
  refine hlist.andThen fun records t ht => ?_
  exact ht.trans (ht.coherent.reads_refreshed records)

theorem load_ends (r : NodeRef) : Call.Ends (load r) s (fun e t => s.Reads t ∧
      t.directory = s.directory ∧ ∃ x, t.entity? e = some x ∧
        x.id = (s.directory.node r).id ∧ x.kind = (s.directory.node r).kind) s.Refuses := by
  have hget : Call.Ends (onOutside (MailService.getLabel (σ := Bench) (s.directory.node r).id)) s
      (fun record t => record.id = (s.directory.node r).id ∧
        ∃ store, t = s.withStore store ∧ s.outside.store.Reads store) s.Refuses :=
    ends_onStore ((Store.getLabel_ends hs.store _).imp (fun _ store h => ⟨h.2, store, rfl, h.1⟩)
      fun _ _ h => ⟨hs.reads_withStore h.1, h.2⟩)
  refine hget.andThen fun record t ht => ?_
  obtain ⟨hid, store, rfl, hstore⟩ := ht
  have hpush := hs.pushed hstore (.ofRecord (s.directory.node r).kind record) (by
    change (s.directory.node r).kind = .category ↔ isCategoryId record.id = true
    rw [hid]
    exact (hs.nodes r).kind)
  exact ⟨hpush, rfl, _, Array.getElem?_push_size, hid, rfl⟩

theorem entity_ends (r : NodeRef) : Call.Ends (entity r) s
    (fun e t => s.Reads t ∧ ∃ x, t.entity? e = some x ∧ x.id = (s.directory.node r).id)
    s.Refuses := by
  rw [entity]
  refine Call.Ends.getThen ?_
  cases hstanding : s.directory.standing r with
  | error failure => exact ⟨hs.reads, by simp [Directory.kind?_of_standing hstanding]⟩
  | ok standing =>
    cases standing with
    | loaded e =>
      obtain ⟨x, hx, hid, -⟩ :=
        (hs.nodes r).cached e _ (Directory.cached_of_standing hstanding)
      exact ⟨hs.reads, x, hx, hid⟩
    | missing g =>
      change Call.Ends (load r >>= _) s _ _
      refine hs.reads.andThen (load_ends hs r) fun e t ht => ?_
      obtain ⟨ht, hdirectory, x, hx, hid, hkind⟩ := ht
      exact ⟨ht.trans (ht.coherent.reads_keep hx (hdirectory ▸ hid) (hdirectory ▸ hkind) g),
        x, hx, hid⟩

theorem nodeById_ends (id : String) : Call.Ends (nodeById id) s
    (fun r t => t = s ∧ (s.directory.node r).id = id) s.Refuses := by
  obtain ⟨_, hstands⟩ := hs.stands
  simp only [Call.Ends, nodeById, Call.run_bind, Call.run_get, Label.Registry.getById]
  cases hid : s.directory.registry.byId.get? id with
  | none => exact ⟨hs.reads, by simp [Failure.kind?]⟩
  | some r => exact ⟨rfl, (hstands.based.keyed.of_get? hid).2⟩

end Labels

end Mailroom.Session
