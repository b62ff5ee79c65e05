import Mailroom.Proofs.Label.Listed
import Mailroom.Proofs.Remote.Labels
import Mailroom.Proofs.Session.Coherence

/-! Handles of labels over time. `LabelRun` runs the operations on labels and remembers which name
the service had for each label when its handle was last handed out or brought up to date. `Tracked`
is what every operation preserves: a loaded label has the name that is remembered for its handle,
and those that were loaded since the last refresh are as the service has them. -/

namespace Mailroom.Session

theorem nodup_userLabels {store : Remote.Store} (h : store.Neat) :
    ((userLabels store.labels.values).map (·.id)).Nodup := by
  rw [userLabels, List.map_map]
  exact h.nodup_ids.sublist (List.filter_sublist.map _)

end Mailroom.Session

namespace Mailroom.Label.Directory

open Session (userLabels)

theorem node_keep {d : Directory} (r : NodeRef) (e : EntityRef) (g : Nat) (q : NodeRef) :
    (d.keep r e g).node q = d.node q ∨
      q = r ∧ (d.keep r e g).node q = { d.node q with cached := some (e, g) } := by
  by_cases hq : q = r
  · subst hq
    by_cases hhas : d.Has q
    · exact Or.inr ⟨rfl, node_modifyNode_self _ hhas⟩
    · exact Or.inl (node_modifyNode_of_not_has _ hhas)
  · exact Or.inl (node_modifyNode_of_ne _ hq)

/-- A directory in which registered nodes are in use, all but the fixed nodes are labels of the
user, and no label is kept from a later refresh. -/
structure Tended (d : Directory) : Prop where
  living : d.Living
  user : ∀ r, isFixedId (d.node r).id = false → (d.node r).kind = .user
  cached : ∀ r e g, (d.node r).cached = some (e, g) → g ≤ d.generation

theorem tended_initial : initial.Tended := by
  have hnode : ∀ r, (isFixedId (initial.node r).id = false → (initial.node r).kind = .user) ∧
      (initial.node r).cached = none :=
    holds_initial (P := fun n => (isFixedId n.id = false → n.kind = .user) ∧ n.cached = none)
      (by decide) (by decide +kernel)
  exact ⟨fresh_initial.living_registered, fun r => (hnode r).1,
    fun r e g h => absurd ((hnode r).2.symm.trans h) (by simp)⟩

namespace Tended

variable {d : Directory} (h : d.Tended)
include h

/-- After a refresh nothing that is kept is as new as the refresh. -/
theorem refreshed (hd : d.Keyed) (records : List Remote.LabelRecord) :
    (Session.refreshed d records).2.Tended ∧ ∀ r e g,
      ((Session.refreshed d records).2.node r).cached = some (e, g) →
        g < (Session.refreshed d records).2.generation := by
  have huser : Node.Lasting fun n => isFixedId n.id = false → n.kind = .user :=
    ⟨fun _ _ _ _ _ h => h, fun _ h => h⟩
  have hcached : Node.Lasting fun n => ∀ e g, n.cached = some (e, g) → g ≤ d.generation :=
    ⟨fun _ _ _ _ _ h => h, fun _ _ => by rintro _ _ ⟨⟩⟩
  have hold : ∀ r e g, ((Session.refreshed d records).2.node r).cached = some (e, g) →
      g ≤ d.generation := fun r => holds_rebuild hcached hd (h.cached r)
    fun _ _ => by rintro _ _ ⟨⟩
  exact ⟨⟨h.living.rebuild hd (userLabels records),
    fun r => holds_rebuild huser hd (h.user r) fun _ _ _ => rfl,
    fun r e g hr => Nat.le_succ_of_le (hold r e g hr)⟩,
    fun r e g hr => Nat.lt_succ_of_le (hold r e g hr)⟩

/-- A refresh finds every label of the user whose name no other label of the user has, and its node
is in use. -/
theorem finds {listings : List (List Tag)} (hstands : Stands .initial d listings)
    {store : Remote.Store} (hstore : store.Neat) {l : Tag}
    (hl : l ∈ userLabels store.labels.values)
    (hname : ∀ m ∈ userLabels store.labels.values, m.name = l.name → m = l) :
    let after := (Session.refreshed d store.labels.values).2
    ∃ r, after.registry.byId.get? l.id = some r ∧ (after.node r).evicted = false := by
  have hids := Session.nodup_userLabels hstore
  obtain ⟨r, hfound, -, hliving⟩ :=
    h.living.rebuild_finds hstands.based hids hl hname (free_userLabels _ l hl)
  exact ⟨r, hfound, hliving⟩

theorem keep (r : NodeRef) (e : EntityRef) : (d.keep r e d.generation).Tended := by
  refine ⟨fun q hq => ?_, fun q => ?_, fun q other g => ?_⟩
  · obtain hnode | ⟨-, hnode⟩ := node_keep r e d.generation q <;>
      rw [hnode] <;> exact h.living q hq
  · obtain hnode | ⟨-, hnode⟩ := node_keep r e d.generation q <;>
      rw [hnode] <;> exact h.user q
  · obtain hnode | ⟨-, hnode⟩ := node_keep r e d.generation q <;> rw [hnode] <;> intro hcached
    · exact h.cached q other g hcached
    · obtain ⟨-, rfl⟩ := Prod.mk.inj (Option.some.inj hcached)
      exact Nat.le_refl _

end Tended

end Mailroom.Label.Directory

namespace Mailroom.Session

open Label (Directory Entity EntityRef NodeRef isFixedId)
open Remote (Bench LabelBody LabelOptions LabelRecord MailService Store)

/-! ### Runs of operations on labels -/

/-- The name that the service has for the label of a handle. -/
def remoteName (s : Session Bench) (e : EntityRef) : Option String :=
  (s.outside.store.labels.get? (s.entityId e)).map (·.name)

/-- The names that handles were last read under, once a handle was read or handed out. -/
def read (called : EntityRef → Option String) (handle : Option EntityRef) (s : Session Bench) :
    EntityRef → Option String :=
  fun e => if handle = some e then s.remoteName e else called e

/-- The operations on labels. -/
inductive LabelStep
  | create (name : String) (options : LabelOptions)
  | createChild (e : EntityRef) (name : String) (options : LabelOptions)
  | update (e : EntityRef) (name : Option String) (options : LabelOptions)
  | delete (e : EntityRef) (recursive : Bool)
  | refresh
  | load (r : NodeRef)
  | reload (e : EntityRef)

/-- An operation, with the handle that it hands out or brings up to date. -/
def LabelStep.op : LabelStep → Op Bench (Option EntityRef)
  | create name options => do return some (← createLabel name options)
  | createChild e name options => do return some (← Session.createChild e name options)
  | update e name options => do return some (← updateLabel e name options)
  | delete e recursive => do
    deleteLabel e recursive
    return none
  | refresh => do
    let _ ← Session.refresh
    return none
  | load r => do return some (← entity r)
  | reload e => do return some (← Session.reload e)

/-- The sessions that come of one by operations that succeed, with the name that the service had
for the label of each handle when the handle was last read. -/
inductive LabelRun (first : Session Bench) : (EntityRef → Option String) → Session Bench → Prop
  | start : LabelRun first (fun _ => none) first
  | step {called s t handle} (step : LabelStep) :
      LabelRun first called s → step.op.run s = (.ok handle, t) →
      LabelRun first (read called handle t) t

/-! ### What a run keeps -/

/-- A loaded label that is as the service has it. -/
def UpToDate (s : Session Bench) (e : EntityRef) : Prop :=
  ∀ x, s.entity? e = some x → ∃ label, s.outside.store.labels.get? x.id = some label ∧
    (x.kind = .user → x.name = label.name)

/-- A session in which every loaded label of the user has the name it was last read under. -/
structure Kept (called : EntityRef → Option String) (s : Session Bench) : Prop where
  coherent : s.Coherent
  tended : s.directory.Tended
  once : s.outside.store.labels.keys.Nodup
  names : ∀ e x, s.entity? e = some x → x.kind = .user → called e = some x.name

/-- Moreover, labels that were loaded since the last refresh are as the service has them. -/
structure Tracked (called : EntityRef → Option String) (s : Session Bench) : Prop
    extends Kept called s where
  current : ∀ r e, (s.directory.node r).cached = some (e, s.directory.generation) → s.UpToDate e

variable {called : EntityRef → Option String} {s t : Session Bench}

theorem Kept.neat (h : Kept called s) : s.outside.store.Neat := ⟨h.coherent.store, h.once⟩

theorem Kept.withStore (h : Kept called s) {store : Store} (hstore : store.Neat) :
    Kept called (s.withStore store) :=
  ⟨h.coherent.withStore hstore.toSound, h.tended, hstore.once, h.names⟩

theorem Kept.keyed (h : Kept called s) : s.directory.Keyed := by
  obtain ⟨_, hstands⟩ := h.coherent.stands
  exact hstands.based.keyed

theorem Kept.refreshed (h : Kept called s) (records : List LabelRecord) :
    Tracked called { s with directory := (Session.refreshed s.directory records).2 } := by
  obtain ⟨htended, hcached⟩ := h.tended.refreshed h.keyed records
  exact ⟨⟨h.coherent.refreshed records, htended, h.once, h.names⟩,
    fun r e hr => absurd (hcached r e _ hr) (Nat.lt_irrefl _)⟩

theorem Kept.request {α : Type} (h : Kept called s) {x : Call Store α}
    (hx : Call.Ends x s.outside.store (fun _ => Store.Neat) fun _ _ => True) :
    Call.Ends (onOutside (Bench.onStore x)) s (fun _ => Kept called) fun _ _ => True :=
  ends_onStore (hx.imp (fun _ _ hstore => h.withStore hstore) fun _ _ _ => trivial)

/-- Two sessions with the same loaded labels, whose stores have the same labels. -/
def Alike (s t : Session Bench) : Prop :=
  t.entities = s.entities ∧ t.outside.store.labels = s.outside.store.labels

theorem read_of_alike (h : Alike s t) (handle : Option EntityRef) :
    Session.read called handle t = Session.read called handle s := by
  funext e
  rw [Session.read, remoteName, entityId, entity?, h.1, h.2]
  rfl

theorem Kept.refresh_ends (h : Kept called s) :
    Call.Ends refresh s (fun _ t => Tracked called t ∧ Alike s t) fun _ _ => True := by
  have hlist : Call.Ends (onOutside (MailService.listLabels (σ := Bench))) s
      (fun _ t => Kept called t ∧ Alike s t) fun _ _ => True :=
    ends_onStore ((Store.listLabels_ends h.coherent.store).imp
      (fun _ _ hreads => ⟨h.withStore (h.neat.reads hreads), rfl, hreads.labels⟩)
      fun _ _ _ => trivial)
  exact hlist.andThen fun records t h => ⟨h.1.refreshed records, h.2⟩

theorem getLabel_ends (h : Kept called s) (id : String) :
    Call.Ends (onOutside (MailService.getLabel (σ := Bench) id)) s (fun label t =>
      ∃ store, t = s.withStore store ∧ s.outside.store.Reads store ∧
        store.labels.get? id = some label) fun _ _ => True :=
  ends_onStore ((Store.getLabel_finds h.coherent.store id).imp
    (fun _ store hget => ⟨store, rfl, hget⟩) fun _ _ _ => trivial)

theorem entity?_push (s : Session Bench) (x : Entity) (e : EntityRef) :
    entity? { s with entities := s.entities.push x } e =
      if e.index = s.entities.size then some x else s.entity? e := Array.getElem?_push

theorem entity?_update (s : Session Bench) (r : EntityRef) (record : LabelRecord)
    (e : EntityRef) : entity? { s with entities := s.entities.modify r.index (·.update record) } e =
      if e = r then (s.entity? e).map (·.update record) else s.entity? e := by
  rw [entity?, Array.getElem?_modify]
  by_cases he : e = r
  · subst he
    rw [if_pos rfl, if_pos rfl]
    rfl
  · have hindex : r.index ≠ e.index := fun h => he (congrArg EntityRef.mk h).symm
    rw [if_neg hindex, if_neg he]
    rfl

theorem remoteName_of_entity? {e : EntityRef} {x : Entity} (hx : s.entity? e = some x) :
    s.remoteName e = (s.outside.store.labels.get? x.id).map (·.name) := by
  rw [remoteName, entityId_of_entity? hx]

theorem UpToDate.remoteName_eq {e : EntityRef} {x : Entity} (h : s.UpToDate e)
    (hx : s.entity? e = some x) (huser : x.kind = .user) : s.remoteName e = some x.name := by
  obtain ⟨label, hlabel, hname⟩ := h x hx
  rw [remoteName_of_entity? hx, hlabel, hname huser]
  rfl

/-- Handing out a label that is as the service has it. -/
theorem Tracked.read (h : Tracked called s) {e : EntityRef} (he : s.UpToDate e) :
    Tracked (Session.read called (some e) s) s := by
  refine ⟨⟨h.coherent, h.tended, h.once, fun other x hx huser => ?_⟩, h.current⟩
  rw [Session.read]
  split
  case isTrue hsame =>
    obtain rfl := Option.some.inj hsame
    exact he.remoteName_eq hx huser
  case isFalse => exact h.names other x hx huser

/-- A session that loaded a label as the service has it, which is a new handle. -/
theorem Tracked.push (h : Tracked called s) {store : Store}
    (hreads : s.outside.store.Reads store) {x : Entity} {label : LabelRecord}
    (hkind : x.kind = .category ↔ Label.isCategoryId x.id = true)
    (hlabel : store.labels.get? x.id = some label) (hname : x.kind = .user → x.name = label.name) :
    Tracked (Session.read called (some ⟨s.entities.size⟩)
        { s.withStore store with entities := s.entities.push x })
      { s.withStore store with entities := s.entities.push x } := by
  obtain ⟨t, ht⟩ : ∃ t, { s.withStore store with entities := s.entities.push x } = t := ⟨_, rfl⟩
  have hentity : ∀ e, t.entity? e = if e.index = s.entities.size then some x else s.entity? e :=
    fun e => ht ▸ entity?_push (s.withStore store) x e
  have hstore : t.outside.store = store := ht ▸ rfl
  have hdirectory : t.directory = s.directory := ht ▸ rfl
  have hnew : ∀ e : EntityRef, e.index = s.entities.size → t.UpToDate e := by
    intro e he y hy
    rw [hentity, if_pos he] at hy
    obtain rfl := Option.some.inj hy
    exact ⟨label, hstore ▸ hlabel, hname⟩
  rw [ht]
  refine ⟨⟨ht ▸ (h.coherent.pushed hreads x hkind).coherent, hdirectory ▸ h.tended, ?_, ?_⟩, ?_⟩
  · rw [hstore]
    exact (h.neat.reads hreads).once
  · intro e y hy huser
    by_cases he : e.index = s.entities.size
    · rw [Session.read, if_pos (congrArg some (congrArg EntityRef.mk he).symm)]
      exact (hnew e he).remoteName_eq hy huser
    · rw [hentity, if_neg he] at hy
      have hother : some (⟨s.entities.size⟩ : EntityRef) ≠ some e := fun hsame =>
        he (Option.some.inj hsame ▸ rfl)
      rw [Session.read, if_neg hother]
      exact h.names e y hy huser
  · intro r e hcached
    by_cases he : e.index = s.entities.size
    · exact hnew e he
    · intro y hy
      rw [hentity, if_neg he] at hy
      rw [hdirectory] at hcached
      obtain ⟨old, hold, hsame⟩ := h.current r e hcached y hy
      rw [hstore, hreads.labels]
      exact ⟨old, hold, hsame⟩

theorem Tracked.load_ends (h : Tracked called s) (r : NodeRef) : Call.Ends (load r) s
    (fun e t => Tracked (Session.read called (some e) t) t ∧ t.directory = s.directory ∧
      ∃ x, t.entity? e = some x ∧ x.id = (s.directory.node r).id ∧
        x.kind = (s.directory.node r).kind ∧ t.UpToDate e) fun _ _ => True := by
  refine (getLabel_ends h.toKept (s.directory.node r).id).andThen fun label t ht => ?_
  obtain ⟨store, rfl, hreads, hget⟩ := ht
  have hid : label.id = (s.directory.node r).id :=
    (hreads.sound h.coherent.store).labels _ _ hget
  have hname : (s.directory.node r).kind = .user →
      Entity.displayName (s.directory.node r).kind label.id label.name = label.name := by
    intro huser
    rw [huser]
    rfl
  have hfound : store.labels.get? label.id = some label := by rw [hid, hget]
  have hpushed := h.push hreads (x := .ofRecord (s.directory.node r).kind label) (by
    change (s.directory.node r).kind = .category ↔ Label.isCategoryId label.id = true
    rw [hid]
    exact (h.coherent.nodes r).kind) hfound hname
  have hself : (s.entities.push (.ofRecord (s.directory.node r).kind label))[s.entities.size]? =
      some (.ofRecord (s.directory.node r).kind label) := Array.getElem?_push_size
  refine ⟨hpushed, rfl, _, hself, hid, rfl, fun y hy => ?_⟩
  obtain rfl := Option.some.inj (hself.symm.trans hy)
  exact ⟨label, hfound, hname⟩

theorem Tracked.keep (h : Tracked called s) {r : NodeRef} {e : EntityRef} {x : Entity}
    (hx : s.entity? e = some x) (hid : x.id = (s.directory.node r).id)
    (hkind : x.kind = (s.directory.node r).kind) (he : s.UpToDate e) :
    Tracked called { s with directory := s.directory.keep r e s.directory.generation } := by
  refine ⟨⟨h.coherent.keep hx hid hkind _, h.tended.keep r e, h.once, h.names⟩,
    fun q other hcached => ?_⟩
  obtain hnode | ⟨-, hnode⟩ := Directory.node_keep r e s.directory.generation q
  · exact h.current q other (hnode ▸ hcached)
  · rw [hnode] at hcached
    obtain ⟨rfl, -⟩ := Prod.mk.inj (Option.some.inj hcached)
    exact he

/-- A handle that is asked for shows the label as the service has it, whether it is loaded now or
was so since the last refresh. -/
theorem Tracked.entity_ends (h : Tracked called s) (r : NodeRef) : Call.Ends (entity r) s
    (fun e t => Tracked (Session.read called (some e) t) t) fun _ _ => True := by
  rw [entity]
  refine Call.Ends.getThen ?_
  cases hstanding : s.directory.standing r with
  | error failure => trivial
  | ok standing =>
    cases standing with
    -- A label that is not loaded again was loaded since the last refresh.
    | loaded e => exact h.read (h.current r e (Directory.cached_of_standing hstanding))
    | missing g =>
      change Call.Ends (load r >>= _) s _ _
      refine (h.load_ends r).andThen fun e t hloaded => ?_
      obtain ⟨ht, hdirectory, x, hx, hid, hkind, hfresh⟩ := hloaded
      rw [Directory.generation_of_standing hstanding, ← hdirectory]
      exact ht.keep hx (hdirectory ▸ hid) (hdirectory ▸ hkind) hfresh

/-! ### Reading a handle again -/

section Updating

variable {store : Store} {e : EntityRef} {label : LabelRecord}

/-- The session after a label was read again. -/
def updated (s : Session Bench) (store : Store) (e : EntityRef) (label : LabelRecord) :
    Session Bench :=
  { s.withStore store with entities := s.entities.modify e.index (·.update label) }

theorem entity?_updated (f : EntityRef) : (s.updated store e label).entity? f =
    if f = e then (s.entity? f).map (·.update label) else s.entity? f :=
  entity?_update (s.withStore store) e label f

variable (store e label) in
/-- Reading a label again changes neither its id nor its kind. -/
theorem updated_keeps {f : EntityRef} {x : Entity} (hx : s.entity? f = some x) :
    ∃ y, (s.updated store e label).entity? f = some y ∧ y.id = x.id ∧ y.kind = x.kind := by
  rw [entity?_updated, hx]
  split
  · exact ⟨_, rfl, rfl, rfl⟩
  · exact ⟨x, rfl, rfl, rfl⟩

theorem updated_tag (f : EntityRef) : (s.updated store e label).entityId f = s.entityId f ∧
    (s.updated store e label).entityKind f = s.entityKind f := by
  cases hx : s.entity? f with
  | none =>
    have hnone : (s.updated store e label).entity? f = none := by
      rw [entity?_updated, hx]
      split <;> rfl
    simp [entityId, entityKind, hx, hnone]
  | some x =>
    obtain ⟨y, hy, hid, hkind⟩ := updated_keeps store e label hx
    rw [entityId_of_entity? hy, entityKind_of_entity? hy, entityId_of_entity? hx,
      entityKind_of_entity? hx]
    exact ⟨hid, hkind⟩

theorem Coherent.updated (h : s.Coherent) (hstore : store.Sound) :
    (s.updated store e label).Coherent := by
  refine ⟨h.stands, fun r => ⟨(h.nodes r).kind, fun f g hcached => ?_⟩, fun f => ?_, hstore⟩
  · obtain ⟨x, hx, hid, hkind⟩ := (h.nodes r).cached f g hcached
    obtain ⟨y, hy, hid', hkind'⟩ := updated_keeps store e label hx
    exact ⟨y, hy, hid'.trans hid, hkind'.trans hkind⟩
  · rw [(updated_tag f).1, (updated_tag f).2]
    exact h.entities f

variable (hreads : s.outside.store.Reads store)
  (hlabel : store.labels.get? (s.entityId e) = some label)
include hreads hlabel

omit hreads in
theorem upToDate_updated : (s.updated store e label).UpToDate e := by
  intro y hy
  rw [entity?_updated, if_pos rfl] at hy
  obtain ⟨x, hx, rfl⟩ := Option.map_eq_some_iff.mp hy
  refine ⟨label, ?_, fun huser => ?_⟩
  · rw [entityId_of_entity? hx] at hlabel
    exact hlabel
  · have hkind : x.kind = .user := huser
    simp only [Entity.update, Entity.name, hkind]
    rfl

theorem Kept.updated (h : Kept called s) :
    Kept (Session.read called (some e) (s.updated store e label)) (s.updated store e label) := by
  refine ⟨h.coherent.updated (h.neat.reads hreads).toSound, h.tended, (h.neat.reads hreads).once,
    fun f y hy huser => ?_⟩
  rw [Session.read]
  split
  case isTrue hsame =>
    obtain rfl := Option.some.inj hsame
    exact (upToDate_updated hlabel).remoteName_eq hy huser
  case isFalse hother =>
    rw [entity?_updated, if_neg fun heq => hother (congrArg some heq.symm)] at hy
    exact h.names f y hy huser

theorem Tracked.updated (h : Tracked called s) :
    Tracked (Session.read called (some e) (s.updated store e label)) (s.updated store e label) := by
  refine ⟨h.toKept.updated hreads hlabel, fun r f hcached => ?_⟩
  by_cases hf : f = e
  · subst hf
    exact upToDate_updated hlabel
  · intro y hy
    rw [entity?_updated, if_neg hf] at hy
    obtain ⟨old, hold, hname⟩ := h.current r f hcached y hy
    refine ⟨old, ?_, hname⟩
    rw [← hold]
    exact congrArg (fun labels => Table.get? labels y.id) hreads.labels

end Updating

theorem Kept.reload_ends (h : Kept called s) (e : EntityRef) : Call.Ends (reload e) s
    (fun f t => f = e ∧ ∃ store label, t = s.updated store e label ∧
      s.outside.store.Reads store ∧ store.labels.get? (s.entityId e) = some label)
    fun _ _ => True := by
  rw [reload]
  refine Call.Ends.getThen ((getLabel_ends h (s.entityId e)).andThen fun label t ht => ?_)
  obtain ⟨store, rfl, hreads, hget⟩ := ht
  exact ⟨rfl, store, label, rfl, hreads, hget⟩

/-! ### Steps and runs -/

variable (h : Tracked called s)
include h

theorem Tracked.createLabel_ends (name : String) (options : LabelOptions) :
    Call.Ends (createLabel name options) s
      (fun e t => Tracked (Session.read called (some e) t) t) fun _ _ => True := by
  rw [createLabel]
  refine (h.toKept.request (Store.createLabel_ends h.neat _)).andThen fun id t ht => ?_
  refine ht.refresh_ends.andThen fun _ t hrefreshed => ?_
  have ht := hrefreshed.1
  have hnode : Call.Ends (nodeById id) t (fun _ u => Tracked called u) fun _ _ => True :=
    (nodeById_ends ht.coherent id).imp (fun _ _ hu => hu.1 ▸ ht) fun _ _ _ => trivial
  refine hnode.andThen fun r t ht => (ht.entity_ends r).andThen fun e t ht => ?_
  refine Call.Ends.getThen ?_
  split
  · exact ht
  · trivial

theorem Tracked.updateLabel_ends (e : EntityRef) (name : Option String) (options : LabelOptions) :
    Call.Ends (updateLabel e name options) s
      (fun f t => Tracked (Session.read called (some f) t) t) fun _ _ => True := by
  rw [updateLabel]
  split
  · trivial
  · refine Call.Ends.getThen ?_
    -- Until the refresh only `Kept` holds: labels that the directory shows are behind the service.
    refine (h.toKept.request (Store.updateLabel_ends h.neat _ _)).andThen fun _ t ht => ?_
    refine (ht.reload_ends e).andThen fun _ u hu => ?_
    obtain ⟨-, store, label, rfl, hreads, hlabel⟩ := hu
    refine (ht.updated hreads hlabel).refresh_ends.andThen fun _ v hrefreshed => ?_
    obtain ⟨hv, hsame⟩ := hrefreshed
    rw [← read_of_alike hsame] at hv
    exact hv

theorem Tracked.deleteLabel_ends (e : EntityRef) (recursive : Bool) :
    Call.Ends (deleteLabel e recursive) s (fun _ t => Tracked called t) fun _ _ => True := by
  rw [deleteLabel]
  have hdelete : ∀ id t, Kept called t → Call.Ends
      (onOutside (MailService.deleteLabel (σ := Bench) id)) t (fun _ => Kept called)
      fun _ _ => True := fun id t ht => ht.request (Store.deleteLabel_ends ht.neat id)
  refine Call.Ends.getThen ((hdelete _ s h.toKept).andThen fun _ t ht => ?_)
  have hlast : ∀ t, Kept called t →
      Call.Ends (do let _ ← refresh) t (fun _ => Tracked called) fun _ _ => True := fun t ht =>
    ht.refresh_ends.andThen fun _ u hu => hu.1
  cases recursive with
  | false => exact hlast t ht
  | true =>
    have hlist : Call.Ends (onOutside (MailService.listLabels (σ := Bench))) t
        (fun _ => Kept called) fun _ _ => True :=
      ht.request ((Store.listLabels_ends ht.coherent.store).imp
        (fun _ _ hreads => ht.neat.reads hreads) fun _ _ _ => trivial)
    refine hlist.andThen fun records t ht => Call.Ends.getThen ?_
    refine (Call.Ends.forM ht fun r _ u hu => hdelete r.id u hu).andThen fun _ u hu => ?_
    exact hlast u hu

/-- Every operation on labels keeps track of the handles. -/
theorem Tracked.step_ends (step : LabelStep) : Call.Ends step.op s
    (fun handle t => Tracked (Session.read called handle t) t) fun _ _ => True := by
  cases step with
  | create name options => exact (h.createLabel_ends name options).andThen fun _ _ ht => ht
  | createChild e name options =>
    refine Call.Ends.andThen ?_ fun e t (ht : Tracked (Session.read called (some e) t) t) => ht
    exact Call.Ends.getThen (h.createLabel_ends _ options)
  | update e name options => exact (h.updateLabel_ends e name options).andThen fun _ _ ht => ht
  | delete e recursive => exact (h.deleteLabel_ends e recursive).andThen fun _ _ ht => ht
  | refresh => exact h.toKept.refresh_ends.andThen fun _ _ ht => ht.1
  | load r => exact (h.entity_ends r).andThen fun _ _ ht => ht
  | reload e =>
    refine (h.toKept.reload_ends e).andThen fun f t ht => ?_
    obtain ⟨rfl, store, label, rfl, hreads, hlabel⟩ := ht
    exact h.updated hreads hlabel

omit h in
theorem LabelRun.tracked {first : Session Bench} (hdirectory : first.directory = .initial)
    (hentities : first.entities = #[]) (hstore : first.outside.store.Neat)
    (h : LabelRun first called t) : Tracked called t := by
  induction h with
  | start =>
    have hnone : ∀ e, first.entity? e = none := fun e => by simp [entity?, hentities]
    have hkept : Kept (fun _ => none) first :=
      ⟨.fresh hdirectory hentities hstore.toSound, hdirectory ▸ Directory.tended_initial,
        hstore.once, fun e x hx => absurd ((hnone e).symm.trans hx) (by simp)⟩
    exact ⟨hkept, fun r e _ x hx => absurd ((hnone e).symm.trans hx) (by simp)⟩
  | step step _ hrun ih => exact (ih.step_ends step).ok hrun

end Mailroom.Session
