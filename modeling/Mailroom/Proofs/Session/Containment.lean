import Mailroom.Proofs.Label.Containment
import Mailroom.Proofs.Session.Deletion
import Mailroom.Proofs.Session.Order

/-! Containment of loaded labels. After a refresh, and as long as the labels of the service do not
change, the labels that are loaded have the names that the tree was built from. `Abreast` says so,
and loading, reading again and forgetting labels keep it. So the test of names that `contains` makes
is the order of the tree, `parent` answers with the smallest label that properly contains another,
and `children` with the labels whose parent a label is. -/

namespace Mailroom.Session

open Label (Directory Entity EntityRef NodeRef Tag Encloses Proper isFixedId)
open Label.Directory (Based Shows)
open Remote (Bench LabelRecord MailService Store)

variable {s t u : Session Bench} {since : Nat}

/-! ### Sessions that only look -/

/-- What looking at labels does to a session: the labels of the service and the tree stay, and what
is loaded is as the service has it. -/
structure Glances (s t : Session Bench) : Prop extends s.Continues t where
  store : s.outside.store.Reads t.outside.store
  bare : t.directory.bare = s.directory.bare
  size : s.entities.size ≤ t.entities.size
  loaded : ∀ e, t.entity? e = s.entity? e ∨ t.UpToDate e
  cached : ∀ r e g, (t.directory.node r).cached = some (e, g) →
    (s.directory.node r).cached = some (e, g) ∨ s.entities.size ≤ e.index

theorem UpToDate.of_entity? {e : EntityRef} (h : s.UpToDate e) (he : t.entity? e = s.entity? e)
    (hlabels : t.outside.store.labels = s.outside.store.labels) : t.UpToDate e := by
  intro x hx
  obtain ⟨label, hlabel, hname⟩ := h x (he ▸ hx)
  exact ⟨label, hlabels ▸ hlabel, hname⟩

theorem Glances.trans (h : s.Glances t) (h' : t.Glances u) : s.Glances u := by
  refine ⟨h.toContinues.trans h'.toContinues, h.store.trans h'.store, h'.bare.trans h.bare,
    h.size.trans h'.size, fun e => ?_, fun r e g hcached => ?_⟩
  · rcases h'.loaded e with hsame | hfresh
    · rcases h.loaded e with hold | hfresh
      · exact Or.inl (hsame.trans hold)
      · exact Or.inr (hfresh.of_entity? hsame h'.store.labels)
    · exact Or.inr hfresh
  · rcases h'.cached r e g hcached with hsame | hnew
    · exact h.cached r e g hsame
    · exact Or.inr (h.size.trans hnew)

namespace Orderly

variable (h : s.Orderly)
include h

theorem glances : s.Glances s :=
  ⟨h.continues, .refl _, rfl, Nat.le_refl _, fun _ => Or.inl rfl, fun _ _ _ => Or.inl⟩

theorem glances_asked (r : Remote.Request) :
    s.Glances (s.withStore (s.outside.store.asked r)) :=
  ⟨(h.asked r).continues, Store.reads_asked _ r, rfl, Nat.le_refl _, fun _ => Or.inl rfl,
    fun _ _ _ => Or.inl⟩

/-- The label that the store has for an id, or why there is none. -/
theorem getLabel_looks (id : String) :
    Call.Ends (onOutside (MailService.getLabel (σ := Bench) id)) s
      (fun label t => s.outside.store.labels.get? id = some label ∧
        t = s.withStore (s.outside.store.asked (.getLabel id)))
      fun failure t => s.Glances t ∧ (s.outside.store.planned.get? .getLabel = some failure ∨
        s.outside.store.labels.get? id = none ∧
          failure = .api ("label " ++ id ++ " not found")) := by
  have hasked := h.glances_asked (.getLabel id)
  refine ends_onStore ?_
  rw [Call.Ends, Store.getLabel_eq]
  cases hplanned : s.outside.store.planned.get? .getLabel with
  | some failure => exact ⟨hasked, .inl rfl⟩
  | none =>
    cases hlabel : s.outside.store.labels.get? id with
    | none => exact ⟨hasked, .inr ⟨rfl, rfl⟩⟩
    | some label => exact ⟨rfl, rfl⟩

theorem glances_pushed (kind : Label.Kind) {label : LabelRecord}
    (hkind : kind = .category ↔ Label.isCategoryId label.id = true)
    (hlabel : s.outside.store.labels.get? label.id = some label) :
    s.Glances { s with entities := s.entities.push (.ofRecord kind label) } := by
  refine ⟨(h.pushed hkind).continues, .refl _, rfl, Nat.le_of_lt (by simp), fun e => ?_,
    fun _ _ _ => Or.inl⟩
  have hentity := entity?_push s (.ofRecord kind label) e
  by_cases he : e.index = s.entities.size
  · rw [if_pos he] at hentity
    refine Or.inr fun x hx => ?_
    obtain rfl := Option.some.inj (hentity.symm.trans hx)
    refine ⟨label, hlabel, fun huser => ?_⟩
    have hkind : kind = .user := huser
    simp only [Entity.ofRecord, Entity.name, hkind]
    rfl
  · rw [if_neg he] at hentity
    exact Or.inl hentity

/-- A label that is loaded is a new one, and as the service has it. -/
theorem load_looks (r : NodeRef) : Call.Ends (load r) s
    (fun e t => s.Glances t ∧ t.directory = s.directory ∧ e.index = s.entities.size ∧
      ∃ x, t.entity? e = some x ∧ x.id = (s.directory.node r).id ∧
        x.kind = (s.directory.node r).kind)
    fun failure t => s.Glances t ∧ s.Unloaded r failure := by
  refine Call.Ends.getThen (((h.getLabel_looks _).impFailed ?_).andThen fun label t ht => ?_)
  · rintro failure t ⟨ht, hplanned | ⟨hmissing, rfl⟩⟩
    · exact ⟨ht, .planned hplanned⟩
    · exact ⟨ht, .missing hmissing⟩
  · obtain ⟨hlabel, rfl⟩ := ht
    have hid := h.indexed _ _ hlabel
    have hasked := h.glances_asked (.getLabel (s.directory.node r).id)
    have hpushed := hasked.orderly.glances_pushed (s.directory.node r).kind
      (hid ▸ (h.coherent.nodes r).kind) (hid ▸ hlabel)
    exact ⟨hasked.trans hpushed, rfl, rfl, _, Array.getElem?_push_size, hid, rfl⟩

theorem entity_looks (r : NodeRef) : Call.Ends (entity r) s
    (fun e t => s.Glances t ∧ (s.entities.size ≤ e.index ∨
        (s.directory.node r).cached = some (e, s.directory.generation)) ∧
      ∃ x, t.entity? e = some x ∧ x.id = (s.directory.node r).id ∧
        x.kind = (s.directory.node r).kind)
    fun failure t => s.Glances t ∧ s.Unloaded r failure := by
  rw [entity]
  refine Call.Ends.getThen ?_
  cases hstanding : s.directory.standing r with
  | error failure =>
    obtain ⟨hevicted, rfl⟩ := Directory.evicted_of_standing hstanding
    exact ⟨h.glances, .evicted hevicted⟩
  | ok standing =>
    cases standing with
    | loaded e =>
      have hcached := Directory.cached_of_standing hstanding
      exact ⟨h.glances, Or.inr hcached, (h.coherent.nodes r).cached e _ hcached⟩
    | missing g =>
      obtain rfl := Directory.generation_of_standing hstanding
      change Call.Ends (load r >>= _) s _ _
      refine (h.load_looks r).andThen fun e t hload => ?_
      obtain ⟨ht, hdirectory, hnew, x, hx, hid, hkind⟩ := hload
      have hkept := ht.orderly.kept hx (hdirectory ▸ hid) (hdirectory ▸ hkind)
      rw [congrArg Directory.generation hdirectory] at hkept
      refine ⟨⟨ht.toContinues.trans hkept.continues, ht.store, ?_, ht.size, ht.loaded,
        fun q other g hcached => ?_⟩, Or.inl (Nat.le_of_eq hnew.symm), x, hx, hid, hkind⟩
      · exact hkept.bare.trans ht.bare
      · obtain hnode | ⟨-, hnode⟩ :=
          Directory.node_keep (d := t.directory) r e s.directory.generation q
        · exact ht.cached q other g (hnode ▸ hcached)
        · obtain ⟨rfl, -⟩ := Prod.mk.inj (Option.some.inj ((congrArg _ hnode).symm.trans hcached))
          exact Or.inr (Nat.le_of_eq hnew.symm)

theorem reload_looks (e : EntityRef) :
    Call.Ends (reload e) s (fun _ => s.Glances) fun _ => s.Glances := by
  rw [reload]
  refine Call.Ends.getThen (((h.getLabel_looks _).impFailed fun _ _ ht => ht.1).andThen
    fun label t ht => .of_run rfl ?_)
  obtain ⟨hlabel, rfl⟩ := ht
  have hupdated := h.updated (s.outside.store.asked (.getLabel (s.entityId e)))
    (h.indexed.of_labels rfl) e label
  refine ⟨hupdated, Store.reads_asked _ _, rfl, ?_, fun f => ?_, fun _ _ _ => Or.inl⟩
  · exact Nat.le_of_eq Array.size_modify.symm
  · by_cases hf : f = e
    · subst hf
      exact Or.inr (upToDate_updated hlabel)
    · exact Or.inl ((entity?_updated f).trans (if_neg hf))

theorem invalidate_looks (r : NodeRef) : s.Glances ((invalidate r).run s).2 := by
  refine ⟨Orders.invalidate r s h, .refl _, ?_, Nat.le_refl _, fun _ => Or.inl rfl,
    fun q e g hcached => Or.inl ?_⟩
  · exact s.directory.bare_modifyNode_cached r none
  · -- A node has what was kept for it, or nothing any more.
    have hnode : (((invalidate r).run s).2.directory.node q).cached = (s.directory.node q).cached ∨
        (((invalidate r).run s).2.directory.node q).cached = none := by
      by_cases hq : q = r
      · subst hq
        by_cases hhas : s.directory.Has q
        · exact Or.inr (congrArg _ (Directory.node_modifyNode_self _ hhas))
        · exact Or.inl (congrArg _ (Directory.node_modifyNode_of_not_has _ hhas))
      · exact Or.inl (congrArg _ (Directory.node_modifyNode_of_ne _ hq))
    rcases hnode with hsame | hnone
    · exact hsame ▸ hcached
    · cases hnone.symm.trans hcached

end Orderly

/-- The sessions that come of one by looking at labels: by loading them, reading them again and
forgetting them, whether that fails or not. Between, anything outside may change but the labels. -/
inductive Looks (first : Session Bench) : Session Bench → Prop
  | start : Looks first first
  | outside {s : Session Bench} (b : Bench) :
      b.store.labels = s.outside.store.labels → Looks first s → Looks first { s with outside := b }
  | entity {s : Session Bench} (r : NodeRef) : Looks first s → Looks first ((entity r).run s).2
  | reload {s : Session Bench} (e : EntityRef) : Looks first s → Looks first ((reload e).run s).2
  | invalidate {s : Session Bench} (r : NodeRef) :
      Looks first s → Looks first ((invalidate r).run s).2

/-! ### Abreast of the labels of the service -/

/-- A session that shows the labels of the service, where the labels that were loaded after a
refresh, which found so many of them, are as the service has them. -/
structure Abreast (since : Nat) (s : Session Bench) : Prop where
  orderly : s.Orderly
  once : s.outside.store.labels.keys.Nodup
  shows : s.directory.Shows (userLabels s.outside.store.labels.values)
  size : since ≤ s.entities.size
  recent : ∀ e : EntityRef, since ≤ e.index → s.UpToDate e
  kept : ∀ r e, (s.directory.node r).cached = some (e, s.directory.generation) → since ≤ e.index

/-- A loaded label of the user that was loaded since a refresh, as the listed label that it is. -/
structure Handle (since : Nat) (labels : List Tag) (s : Session Bench) (e : EntityRef) (l : Tag) :
    Prop where
  since : since ≤ e.index
  listed : l ∈ labels
  entity : ∃ x, s.entity? e = some x ∧ x.id = l.id ∧ x.kind = .user

/-- A store that keeps labels in one place is a neat one, the rest of it aside. -/
theorem neat_labels {store : Store} (h : store.Indexed) (honce : store.labels.keys.Nodup) :
    Store.Neat { Store.initial with labels := store.labels } :=
  Store.initial_neat.withLabels honce h Store.initial.nextLabel

namespace Abreast

theorem of_refreshed {gone : List NodeRef} (hs : s.Orderly)
    (honce : s.outside.store.labels.keys.Nodup)
    (hp : Proper (userLabels s.outside.store.labels.values))
    (hrun : refresh.run s = (.ok gone, t)) :
    t.Abreast t.entities.size ∧ t.outside.store.labels = s.outside.store.labels := by
  obtain ⟨horderly, hentities, hdirectory, hstore⟩ := hs.refresh_ends.ok hrun
  obtain ⟨_, hstands⟩ := hs.stands
  have hlabels : t.outside.store.labels = s.outside.store.labels := by rw [hstore]; rfl
  have hold := (hs.tended.refreshed hs.keyed s.outside.store.labels.values).2
  refine ⟨⟨horderly, hlabels ▸ honce, ?_, Nat.le_refl _, fun e he x hx => ?_,
    fun r e hcached => ?_⟩, hlabels⟩
  · rw [hlabels, hdirectory]
    exact shows_reconciled hstands.based hp
  · have hlt := (Array.getElem?_eq_some_iff.mp hx).1
    exact absurd he (Nat.not_le.mpr hlt)
  · rw [hdirectory] at hcached
    exact absurd (hold r e _ hcached) (Nat.lt_irrefl _)

variable (h : s.Abreast since)
include h

theorem glances (hst : s.Glances t) : t.Abreast since := by
  have hlabels := hst.store.labels
  have hroots := congrArg Directory.roots hst.bare
  have hshown := congrArg Directory.shown hst.bare
  have hgeneration := congrArg Directory.generation hst.bare
  refine ⟨hst.orderly, hlabels ▸ h.once, ?_, h.size.trans hst.size, fun e he => ?_,
    fun r e hcached => ?_⟩
  · rw [hlabels]
    refine h.shows.transfer (Directory.registry_of_bare hst.bare) hroots hshown fun r => ?_
    rw [← Directory.node_bare, ← Directory.node_bare, hst.bare]
  · rcases hst.loaded e with hsame | hfresh
    · exact (h.recent e he).of_entity? hsame hlabels
    · exact hfresh
  · rcases hst.cached r e _ hcached with hsame | hnew
    · exact h.kept r e (hsame.trans (congrArg (fun g => some (e, g)) hgeneration))
    · exact h.size.trans hnew

theorem withOutside {b : Bench} (hb : b.store.labels = s.outside.store.labels) :
    Abreast since { s with outside := b } := by
  refine ⟨h.orderly.withOutside (h.orderly.indexed.of_labels hb), hb ▸ h.once, ?_, h.size,
    fun e he => (h.recent e he).of_entity? rfl hb, h.kept⟩
  rw [show ({ s with outside := b } : Session Bench).outside.store.labels =
    s.outside.store.labels from hb]
  exact h.shows

end Abreast

/-- Looking keeps a session abreast of the labels of the service, which stay the same. -/
theorem Looks.abreast (ht : Looks s t) (h : s.Abreast since) :
    t.Abreast since ∧ t.outside.store.labels = s.outside.store.labels := by
  have hglances : ∀ {u v : Session Bench}, u.Abreast since ∧
      u.outside.store.labels = s.outside.store.labels → u.Glances v →
      v.Abreast since ∧ v.outside.store.labels = s.outside.store.labels := fun hu huv =>
    ⟨hu.1.glances huv, huv.store.labels.trans hu.2⟩
  induction ht with
  | start => exact ⟨h, rfl⟩
  | outside b hb _ ih => exact ⟨ih.1.withOutside hb, hb.trans ih.2⟩
  | entity r _ ih =>
    have hlooks := (ih.1.orderly.entity_looks r).imp (fun _ _ ht => ht.1) fun _ _ ht => ht.1
    exact hglances ih hlooks.state
  | reload e _ ih => exact hglances ih (ih.1.orderly.reload_looks e).state
  | invalidate r _ ih => exact hglances ih (ih.1.orderly.invalidate_looks r)

/-! ### Containment, parents and children -/

theorem Handle.glances {labels : List Tag} {e : EntityRef} {l : Tag}
    (he : Handle since labels s e l) (hst : s.Glances t) : Handle since labels t e l := by
  obtain ⟨x, hx, hid, hkind⟩ := he.entity
  obtain ⟨y, hy, hid', hkind'⟩ := hst.entities e x hx
  exact ⟨he.since, he.listed, y, hy, hid'.trans hid, hkind'.trans hkind⟩

namespace Abreast

variable {labels : List Tag} {e f : EntityRef} {l m : Tag} (h : s.Abreast since)
  (hlabels : userLabels s.outside.store.labels.values = labels)
include h hlabels

theorem exists_record (hl : l ∈ labels) : ∃ record,
    s.outside.store.labels.get? l.id = some record ∧ record.name = l.name := by
  rw [← hlabels] at hl
  obtain ⟨record, hrecord, rfl⟩ := List.mem_map.mp hl
  have hneat := neat_labels h.orderly.indexed h.once
  exact ⟨record, hneat.get?_id (List.mem_of_mem_filter hrecord), rfl⟩

theorem handle_entity (he : Handle since labels s e l) :
    ∃ x, s.entity? e = some x ∧ x.kind = .user ∧ x.id = l.id ∧ x.name = l.name := by
  obtain ⟨x, hx, hid, hkind⟩ := he.entity
  obtain ⟨record, hrecord, hname⟩ := h.exists_record hlabels he.listed
  obtain ⟨label, hlabel, hsame⟩ := h.recent e he.since x hx
  rw [hid, hrecord] at hlabel
  exact ⟨x, hx, hkind, hid, (hsame hkind).trans (Option.some.inj hlabel ▸ hname)⟩

theorem contains_run (hp : Proper labels) (he : Handle since labels s e l)
    (hf : Handle since labels s f m) :
    (contains e (.entity f)).run s = (.ok (decide (l.Contains m)), s) := by
  obtain ⟨x, hx, hkind, hid, hname⟩ := h.handle_entity hlabels he
  obtain ⟨y, hy, -, hid', hname'⟩ := h.handle_entity hlabels hf
  have hcovers : x.covers y = decide (l.Contains m) := by
    have hsame : m.id = l.id ↔ l = m :=
      ⟨fun heq => (hp.eq_of_id hf.listed he.listed heq).symm, fun heq => congrArg Tag.id heq.symm⟩
    rw [Bool.eq_iff_iff, Entity.covers, hid, hid', hname, hname', Bool.or_eq_true, beq_iff_eq,
      Label.startsWith_iff_above, hsame, decide_eq_true_iff]
    rfl
  simp only [contains, Call.run_bind, Call.run_get, entityKind_of_entity? hx, hkind, hx, hy,
    hcovers, Call.run_pure]

theorem living (hl : l ∈ labels) :
    (s.directory.node (s.directory.nodeOf l)).evicted = false := by
  obtain ⟨_, hstands⟩ := h.orderly.stands
  have hbyId := (hlabels ▸ h.shows).byId l hl
  have hused := List.mem_map_of_mem (f := Prod.snd) (Table.mem_of_get? hbyId)
  refine (h.orderly.tended.living _ hused).resolve_left fun hfixed => ?_
  rw [hstands.based.fixed] at hfixed
  have hid : (s.directory.node (s.directory.nodeOf l)).id = l.id :=
    (hstands.based.keyed.of_get? hbyId).2
  rw [hstands.based.node_id hfixed] at hid
  exact Directory.free_userLabels _ l (hlabels ▸ hl) _ hfixed hid.symm

theorem nodeById_looks {failed : Failure → Session Bench → Prop} (hl : l ∈ labels) :
    Call.Ends (nodeById l.id) s (fun r t => r = s.directory.nodeOf l ∧ t = s) failed := by
  have hbyId := (hlabels ▸ h.shows).byId l hl
  simp only [Call.Ends, nodeById, Call.run_bind, Call.run_get, Label.Registry.getById, hbyId,
    ofExcept, Call.run_pure, and_self]

/-- The label of a listed label's node is loaded unless a failure is planned. -/
theorem entity_ends (hl : l ∈ labels) : Call.Ends (entity (s.directory.nodeOf l)) s
    (fun e t => s.Glances t ∧ Handle since labels t e l)
    fun failure _ => s.outside.store.planned.get? .getLabel = some failure := by
  have htag := (hlabels ▸ h.shows).tree.tag l hl
  have hid : (s.directory.node (s.directory.nodeOf l)).id = l.id := congrArg Tag.id htag
  obtain ⟨record, hrecord, -⟩ := h.exists_record hlabels hl
  refine (h.orderly.entity_looks _).imp (fun e t ht => ?_) fun failure t ht => ?_
  · obtain ⟨hlooks, hnew, x, hx, hxid, hkind⟩ := ht
    refine ⟨hlooks, hnew.elim h.size.trans (h.kept _ e), hl, x, hx, hxid.trans hid, ?_⟩
    refine hkind.trans (h.orderly.tended.user _ (hid.symm ▸ ?_))
    rw [← hlabels] at hl
    obtain ⟨_, hlisted, rfl⟩ := List.mem_map.mp hl
    have hfree := (List.mem_filter.mp hlisted).2
    rw [Bool.and_eq_true, Bool.not_eq_true'] at hfree
    exact hfree.2
  · cases ht.2 with
    | evicted hevicted => cases (h.living hlabels hl).symm.trans hevicted
    | planned hplanned => exact hplanned
    | missing hmissing =>
      rw [hid, hrecord] at hmissing
      cases hmissing

theorem exists_loaded {first : Session Bench} (hs : Looks first s)
    (hnone : s.outside.store.planned.get? .getLabel = none) (hl : l ∈ labels) :
    ∃ e t, Looks first t ∧ s.Glances t ∧ Handle since labels t e l ∧
      t.outside.store.planned.get? .getLabel = none := by
  obtain ⟨e, t, hrun, hst, he⟩ := ((h.entity_ends hlabels hl).impFailed
    fun _ _ hplanned => Option.some_ne_none _ (hplanned.symm.trans hnone)).exists_ok
  refine ⟨e, t, ?_, hst, he, Option.eq_none_iff_forall_ne_some.mpr fun failure hplanned => ?_⟩
  · have hstep := hs.entity (s.directory.nodeOf l)
    rwa [hrun] at hstep
  · exact Option.some_ne_none _ ((hst.store.planned _ _ hplanned).symm.trans hnone)

/-- The parent of a label is the smallest label that properly contains it. -/
theorem parent_ends (hp : Proper labels) (hf : Handle since labels s f m) :
    Call.Ends (parent f) s
      (fun above t => s.Glances t ∧ match above with
        | none => t = s ∧ Encloses labels none m
        | some e => ∃ l, t = ((entity (s.directory.nodeOf l)).run s).2 ∧
          Handle since labels t e l ∧ Encloses labels (some l) m)
      fun failure _ => s.outside.store.planned.get? .getLabel = some failure := by
  obtain ⟨y, hy, -, hid, -⟩ := h.handle_entity hlabels hf
  obtain ⟨owner, hangs⟩ := Label.Hangs.exists_owner labels m
  have hparent := (hlabels ▸ h.shows).tree.parent m hf.listed owner hangs
  rw [parent]
  refine Call.Ends.getThen ?_
  rw [entityId_of_entity? hy, hid]
  refine (h.nodeById_looks hlabels hf.listed).andThen fun r t ht => ?_
  obtain ⟨rfl, rfl⟩ := ht
  refine Call.Ends.getThen ?_
  rw [hparent]
  cases owner with
  | none => exact ⟨h.orderly.glances, rfl, (Label.encloses_iff_hangs hp).mpr hangs⟩
  | some l =>
    refine ((h.entity_ends hlabels (hangs.owner_mem l rfl)).withRun.impFailed
      fun _ _ hu => hu.1).andThen fun e u hu => ?_
    obtain ⟨⟨hlooks, he⟩, hrun⟩ := hu
    exact ⟨hlooks, l, by rw [hrun], he, (Label.encloses_iff_hangs hp).mpr hangs⟩

omit h in
theorem mapM_entity_ends {first : Session Bench} {ref : Tag → NodeRef} (ms : List Tag)
    (hms : ∀ m ∈ ms, m ∈ labels) (h : s.Abreast since) (hs : Looks first s)
    (href : s.directory.nodeOf = ref) : Call.Ends ((ms.map ref).mapM entity) s
      (fun fs t => Looks first t ∧ s.Glances t ∧ List.Forall₂ (Handle since labels t) fs ms)
      fun failure _ => s.outside.store.planned.get? .getLabel = some failure := by
  -- Loading one leaves the labels and the tree as they are, so the others have the same nodes.
  induction ms generalizing s with
  | nil => exact ⟨hs, h.orderly.glances, .nil⟩
  | cons m ms ih =>
    obtain ⟨hm, hrest⟩ := List.forall_mem_cons.mp hms
    subst href
    rw [List.map_cons, List.mapM_cons]
    refine ((h.entity_ends hlabels hm).withRun.impFailed fun _ _ ht => ht.1).andThen
      fun f t ht => ?_
    obtain ⟨⟨hlooks, hf⟩, hrun⟩ := ht
    have hnodeOf : t.directory.nodeOf = s.directory.nodeOf := by
      unfold Directory.nodeOf
      rw [Directory.registry_of_bare hlooks.bare]
    have ht : Looks first t := by
      have hstep := hs.entity (s.directory.nodeOf m)
      rwa [hrun] at hstep
    refine ((ih (hlooks.store.labels ▸ hlabels) hrest (h.glances hlooks) ht hnodeOf).impFailed
      fun failure _ hu => hlooks.store.planned _ _ hu).andThen fun fs u hu => ?_
    obtain ⟨hu, hmore, hfs⟩ := hu
    exact ⟨hu, hlooks.trans hmore, .cons (hf.glances hmore) hfs⟩

/-- The children of a label are the labels that have it as their parent. -/
theorem children_ends {first : Session Bench} (hp : Proper labels) (hs : Looks first s)
    (he : Handle since labels s e l) : Call.Ends (children e) s
      (fun fs t => Looks first t ∧ s.Glances t ∧ ∃ ms : List Tag, ms.Nodup ∧
        (∀ m, m ∈ ms ↔ m ∈ labels ∧ Encloses labels (some l) m) ∧
        List.Forall₂ (Handle since labels t) fs ms)
      fun failure _ => s.outside.store.planned.get? .getLabel = some failure := by
  obtain ⟨x, hx, -, hid, -⟩ := h.handle_entity hlabels he
  obtain ⟨ms, hmem, hsorted, hentries⟩ :=
    (hlabels ▸ h.shows).tree.row (some l) (by simpa using he.listed)
  have hnodup : ms.Nodup := hsorted.imp fun hlm => hlm.ne hp.nodup
  rw [children]
  refine Call.Ends.getThen ?_
  rw [entityId_of_entity? hx, hid]
  refine (h.nodeById_looks hlabels he.listed).andThen fun r t ht => ?_
  obtain ⟨rfl, rfl⟩ := ht
  refine Call.Ends.getThen ?_
  have hvalues : (t.directory.node (t.directory.nodeOf l)).children.values =
      ms.map t.directory.nodeOf := by
    rw [Table.values, show (t.directory.node (t.directory.nodeOf l)).children.entries = _ from
      hentries, List.map_map]
    rfl
  rw [hvalues]
  refine (mapM_entity_ends hlabels ms (fun m hm => ((hmem m).mp hm).1) h hs rfl).impDone
    fun fs u hu => ?_
  refine ⟨hu.1, hu.2.1, ms, hnodup, fun m => ?_, hu.2.2⟩
  rw [hmem, Label.encloses_iff_hangs hp]

end Abreast

/-- Containment of loaded labels is the order of the tree. After any operations a refresh succeeds
on a proper listing, and labels are loaded from then on: a label contains another just when its node
is reached from the other's over parents. So it contains itself, two labels that contain each other
are one, and what contains a label contains what that contains. The parent of a label is the
smallest that properly contains it, and the children of a label are those it is the parent of; both
are answered unless a failure is planned for loading them. -/
theorem contains_iff_climbs {first after : Session Bench} {gone : List NodeRef}
    (hfirst : first.New) (hs : Leads first s) (honce : s.outside.store.labels.keys.Nodup)
    (hnames : ((userLabels s.outside.store.labels.values).map (·.name)).Nodup)
    (hnonempty : ∀ l ∈ userLabels s.outside.store.labels.values, l.name ≠ "")
    (hrefresh : refresh.run s = (.ok gone, after)) (ht : Looks after t) :
    let labels := userLabels s.outside.store.labels.values
    let Of := Handle after.entities.size labels
    let Contains e f := (contains e (.entity f)).run t = (.ok true, t)
    (∀ e f l m, Of t e l → Of t f m → ∃ b, (contains e (.entity f)).run t = (.ok b, t) ∧
      (b = true ↔ t.directory.Climbs (t.directory.nodeOf m) (t.directory.nodeOf l)) ∧
      (b = true ↔ l.Contains m)) ∧
    (∀ e l, Of t e l → Contains e e) ∧
    (∀ e f l m, Of t e l → Of t f m → Contains e f → Contains f e → l = m) ∧
    (∀ e f g l m n, Of t e l → Of t f m → Of t g n → Contains e f → Contains f g →
      Contains e g) ∧
    (∀ f m, Of t f m → Call.Ends (parent f) t
      (fun above u => Looks after u ∧ match above with
        | none => Encloses labels none m
        | some e => ∃ l, Of u e l ∧ Encloses labels (some l) m)
      fun failure _ => t.outside.store.planned.get? .getLabel = some failure) ∧
    ∀ e l, Of t e l → Call.Ends (children e) t
      (fun fs u => Looks after u ∧ ∃ ms : List Tag, ms.Nodup ∧
        (∀ m, m ∈ ms ↔ m ∈ labels ∧ Encloses labels (some l) m) ∧ List.Forall₂ (Of u) fs ms)
      fun failure _ => t.outside.store.planned.get? .getLabel = some failure := by
  intro labels Of Contains
  have horderly := (hs.continues hfirst.orderly).orderly
  have hids := nodup_userLabels (neat_labels horderly.indexed honce)
  have hp : Proper labels := ⟨hids, hnames, hnonempty⟩
  obtain ⟨hafter, hstart⟩ := Abreast.of_refreshed horderly honce hp hrefresh
  obtain ⟨h, hsame⟩ := ht.abreast hafter
  have hlabels : userLabels t.outside.store.labels.values = labels := by
    rw [hsame, hstart]
  have hrun : ∀ {e f l m}, Of t e l → Of t f m →
      (contains e (.entity f)).run t = (.ok (decide (l.Contains m)), t) := fun he hf =>
    h.contains_run hlabels hp he hf
  have hiff : ∀ {e f l m}, Of t e l → Of t f m → (Contains e f ↔ l.Contains m) := by
    intro e f l m he hf
    change (contains e (.entity f)).run t = _ ↔ _
    rw [hrun he hf]
    exact ⟨fun hsame => of_decide_eq_true (Except.ok.inj (Prod.mk.inj hsame).1),
      fun hcontains => by rw [decide_eq_true hcontains]⟩
  refine ⟨fun e f l m he hf => ?_, fun e l he => (hiff he he).mpr (.refl l),
    fun e f l m he hf hef hfe => ((hiff he hf).mp hef).antisymm ((hiff hf he).mp hfe),
    fun e f g l m n he hf hg hef hfg =>
      (hiff he hg).mpr (((hiff he hf).mp hef).trans ((hiff hf hg).mp hfg)),
    fun f m hf => ?_, fun e l he => ?_⟩
  · refine ⟨_, hrun he hf, ?_, decide_eq_true_iff⟩
    rw [decide_eq_true_iff]
    exact ((hlabels ▸ h.shows).tree.climbs_iff hp he.listed hf.listed).symm
  · refine (h.parent_ends hlabels hp hf).impDone fun above u hu => ?_
    cases above with
    | none => exact ⟨hu.2.1 ▸ ht, hu.2.2⟩
    | some e =>
      obtain ⟨-, l, hstep, he, hencloses⟩ := hu
      exact ⟨hstep ▸ ht.entity _, l, he, hencloses⟩
  · exact (h.children_ends hlabels hp ht he).impDone fun fs u hu => ⟨hu.1, hu.2.2⟩

/-- Names with doubled and trailing slashes. The label `a` contains `a//b`, whose parent is `a/`; of
`a/b/c`, which has no `a/b` above it, the parent is `a`. -/
theorem contains_iff_climbs_slashes :
    let store : Store := ((((Store.initial.seedLabel "a" (some "Label_1")).2.seedLabel "a//b"
      (some "Label_2")).2.seedLabel "a/" (some "Label_3")).2.seedLabel "a/b/c" (some "Label_4")).2
    let after := (refresh.run (opened store)).2
    let Of := Handle after.entities.size (userLabels store.labels.values)
    ∃ t e f g, Looks after t ∧ Of t e ⟨"Label_1", "a"⟩ ∧ Of t f ⟨"Label_2", "a//b"⟩ ∧
      Of t g ⟨"Label_4", "a/b/c"⟩ ∧ (contains e (.entity f)).run t = (.ok true, t) ∧
      t.directory.Climbs (t.directory.nodeOf ⟨"Label_2", "a//b"⟩)
        (t.directory.nodeOf ⟨"Label_1", "a"⟩) ∧
      (∃ p u, (parent f).run t = (.ok (some p), u) ∧ u.entityId p = "Label_3") ∧
      ∃ p u, (parent g).run t = (.ok (some p), u) ∧ u.entityId p = "Label_1" := by
  intro store after Of
  obtain ⟨gone, u, hrefresh⟩ :=
    Call.exists_ok (x := refresh) (s := opened store) (by decide +kernel)
  obtain rfl : after = u := congrArg Prod.snd hrefresh
  have hfirst := opened_new (Store.initial_neat.seedLabel _ _ |>.seedLabel _ _
    |>.seedLabel _ _ |>.seedLabel _ _ : store.Neat).labels
  have hseeded : userLabels store.labels.values = [⟨"Label_1", "a"⟩, ⟨"Label_2", "a//b"⟩,
      ⟨"Label_3", "a/"⟩, ⟨"Label_4", "a/b/c"⟩] := by decide +kernel
  have hkeys : store.labels.keys.Nodup := by decide +kernel
  have hp : Proper (userLabels store.labels.values) := hseeded ▸ ⟨by decide, by decide, by decide⟩
  obtain ⟨hafter, hlabels⟩ := Abreast.of_refreshed hfirst.orderly hkeys hp hrefresh
  -- The three labels are loaded, one after the other.
  have hmem : ∀ l ∈ [⟨"Label_1", "a"⟩, ⟨"Label_2", "a//b"⟩, ⟨"Label_4", "a/b/c"⟩],
      l ∈ userLabels store.labels.values := hseeded ▸ by decide
  have huser : userLabels after.outside.store.labels.values = userLabels store.labels.values := by
    rw [hlabels]
    rfl
  obtain ⟨e, t₁, ht₁, hst₁, he, hnone₁⟩ :=
    hafter.exists_loaded huser .start (by decide +kernel) (hmem ⟨"Label_1", "a"⟩ (by decide))
  obtain ⟨f, t₂, ht₂, hst₂, hf, hnone₂⟩ := (hafter.glances hst₁).exists_loaded
    (hst₁.store.labels ▸ huser) ht₁ hnone₁ (hmem ⟨"Label_2", "a//b"⟩ (by decide))
  obtain ⟨g, t, ht, hst, hg, hnone⟩ := ((hafter.glances hst₁).glances hst₂).exists_loaded
    (hst₂.store.labels ▸ hst₁.store.labels ▸ huser) ht₂ hnone₂
    (hmem ⟨"Label_4", "a/b/c"⟩ (by decide))
  have he := (he.glances hst₂).glances hst
  have hf := hf.glances hst
  obtain ⟨hcontains, -, -, -, hparent, -⟩ :=
    contains_iff_climbs hfirst .start hkeys hp.names hp.nonempty hrefresh ht
  have habove : ∀ {f : EntityRef} {m l : Tag}, Of t f m →
      Label.Hangs (userLabels store.labels.values) (some l) m →
      ∃ p u, (parent f).run t = (.ok (some p), u) ∧ u.entityId p = l.id := by
    intro f m l hm hangs
    obtain ⟨above, u, hrun, -, habove⟩ := ((hparent f m hm).impFailed
      fun _ _ hfailed => Option.some_ne_none _ (hfailed.symm.trans hnone)).exists_ok
    match above, habove with
    | none, henclosed => cases ((Label.encloses_iff_hangs hp).mp henclosed).unique hp hangs
    | some p, ⟨q, hq, hencloses⟩ =>
      cases ((Label.encloses_iff_hangs hp).mp hencloses).unique hp hangs
      obtain ⟨x, hx, hid, -⟩ := hq.entity
      exact ⟨p, u, hrun, (entityId_of_entity? hx).trans hid⟩
  obtain ⟨b, hrun, hclimbs, hnames⟩ := hcontains e f _ _ he hf
  obtain rfl : b = true := hnames.mpr (by decide)
  exact ⟨t, e, f, g, ht, he, hf, hg, hrun, hclimbs.mp rfl,
    habove (l := ⟨"Label_3", "a/"⟩) hf (hseeded ▸ by decide),
    habove (l := ⟨"Label_1", "a"⟩) hg (hseeded ▸ by decide)⟩

end Mailroom.Session
