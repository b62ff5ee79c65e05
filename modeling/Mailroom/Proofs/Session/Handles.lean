import Mailroom.Proofs.Session.Tracking

/-! What is done through a handle. A loaded label keeps the name it had when it was last read, and
what is made or deleted through it goes by that name. Renaming the label, or one above it, through
another handle leaves it behind: from then on labels are made and deleted below the former name. -/

namespace Mailroom

namespace Remote.Store

variable {s : Store}

/-- A label of the user whose name a path lies above. -/
def isBelow (above : String) (label : LabelRecord) : Bool :=
  label.origin == .user && decide (Label.Above above label.name)

/-- The labels apart from the one of an id and those of the user below a name. -/
def labelsBeside (labels : Table String LabelRecord) (id above : String) :
    Table String LabelRecord :=
  ⟨labels.entries.filter fun entry => entry.1 != id && !isBelow above entry.2⟩

theorem below_eq (above : String) (records : List LabelRecord) :
    Session.below above records = records.filter (isBelow above) := by
  refine List.filter_congr fun r _ => ?_
  rw [isBelow, Bool.eq_iff_iff, Bool.and_eq_true, Bool.and_eq_true, Label.startsWith_iff_above,
    decide_eq_true_iff]

/-- The labels that are left when the one of an id goes first, and then those below a name. -/
theorem labelsBeside_eq (labels : Table String LabelRecord) (id above : String) :
    ⟨(labels.remove id).entries.filter fun entry => !isBelow above entry.2⟩ =
      labelsBeside labels id above := by
  rw [labelsBeside, Table.remove, List.filter_filter]
  exact congrArg Table.mk (List.filter_congr fun _ _ => Bool.and_comm _ _)

/-- The labels below a name are listed once each, and are there to be deleted. -/
theorem Neat.below (h : s.Neat) (above : String) :
    ((Session.below above s.labels.values).map (·.id)).Nodup ∧
      ∀ r ∈ Session.below above s.labels.values, s.labels.has r.id = true := by
  constructor
  · exact h.nodup_ids.sublist (List.filter_sublist.map _)
  · intro r hr
    rw [Table.has, h.get?_id (List.mem_of_mem_filter hr)]
    rfl

/-- Deleting the labels that are below a name takes them away and no others. -/
theorem forM_below_run (h : s.Neat) (hplanned : s.planned = .empty) (above : String) :
    ∃ t, ((Session.below above s.labels.values).forM fun r =>
        MailService.deleteLabel (σ := Store) r.id).run s = (.ok ⟨⟩, t) ∧ t.Neat ∧
      t.planned = .empty ∧
      t.labels = ⟨s.labels.entries.filter fun entry => !isBelow above entry.2⟩ := by
  obtain ⟨hids, hthere⟩ := h.below above
  obtain ⟨t, hrun, ht, hlabels⟩ := forM_deleteLabel_run hplanned hids hthere
  have hneat : Call.Ends ((Session.below above s.labels.values).forM fun r =>
      MailService.deleteLabel (σ := Store) r.id) s (fun _ => Neat) fun _ _ => True :=
    .forM h fun r _ t ht => deleteLabel_ends ht r.id
  rw [below_eq] at hlabels
  exact ⟨t, hrun, hneat.ok hrun, ht, hlabels.trans (h.without_filter (isBelow above))⟩

end Remote.Store

namespace Session

open Label (Directory Entity EntityRef NodeRef isFixedId)
open Remote (Bench LabelBody LabelOptions LabelRecord MailService Store)

variable {called : EntityRef → Option String} {s t : Session Bench}

theorem forM_onStore {α : Type} (items : List α) (f : α → Call Store PUnit) (s : Session Bench) :
    (items.forM fun a => onOutside (Bench.onStore (f a))).run s =
      (((items.forM f).run s.outside.store).1,
        s.withStore ((items.forM f).run s.outside.store).2) := by
  induction items generalizing s with
  | nil => rfl
  | cons a items ih =>
    rw [List.forM, List.forM, Call.run_bind, Call.run_bind, run_onStore]
    rcases (f a).run s.outside.store with ⟨failure | _, store⟩
    · rfl
    · exact ih (s.withStore store)

/-! ### A label that was just made -/

theorem isFixedId_of_counted (n : String) : isFixedId ("Label_" ++ n) = false := by
  have hsystem : ∀ l ∈ Label.System.all, l.id.toList.head? ≠ some 'L' := by decide +kernel
  have hcategory : ∀ c ∈ Label.Category.all, c.id.toList.head? ≠ some 'L' := by decide +kernel
  have hhead : ("Label_" ++ n).toList.head? = some 'L' := by
    rw [String.toList_append]
    rfl
  refine Bool.eq_false_iff.mpr fun hfixed => ?_
  rcases (Bool.or_eq_true _ _).mp hfixed with hsome | hsome
  · obtain ⟨l, hl⟩ := Option.isSome_iff_exists.mp hsome
    have hid := List.find?_some hl
    exact hsystem l (List.mem_of_find?_eq_some hl) (eq_of_beq hid ▸ hhead)
  · obtain ⟨c, hc⟩ := Option.isSome_iff_exists.mp hsome
    have hid := List.find?_some hc
    exact hcategory c (List.mem_of_find?_eq_some hc) (eq_of_beq hid ▸ hhead)

/-- A node of a label of the user that has to be loaded. -/
structure Awaits (d : Directory) (id : String) (r : NodeRef) : Prop where
  found : d.registry.byId.get? id = some r
  standing : d.standing r = .ok (.missing d.generation)
  id : (d.node r).id = id
  kind : (d.node r).kind = .user

/-- After a refresh, a label of the user whose name no other has awaits being loaded. -/
theorem Kept.awaits (h : Kept called s) {label : LabelRecord}
    (hlabel : label ∈ s.outside.store.labels.values) (huser : label.origin = .user)
    (hfree : isFixedId label.id = false)
    (hname : ∀ other ∈ s.outside.store.labels.values, other.name = label.name → other = label) :
    ∃ r, Awaits (Session.refreshed s.directory s.outside.store.labels.values).2 label.id r := by
  obtain ⟨_, hstands⟩ := h.coherent.stands
  obtain ⟨htended, hcached⟩ := h.tended.refreshed h.keyed s.outside.store.labels.values
  have hlisted : label.tag ∈ userLabels s.outside.store.labels.values :=
    List.mem_map_of_mem (List.mem_filter.mpr ⟨hlabel, by simp [huser, hfree]⟩)
  obtain ⟨r, hfound, hliving⟩ := h.tended.finds hstands h.neat hlisted fun m hm hsame => by
    obtain ⟨other, hother, rfl⟩ := List.mem_map.mp hm
    exact congrArg LabelRecord.tag (hname other (List.mem_of_mem_filter hother) hsame)
  have hid : ((Session.refreshed s.directory s.outside.store.labels.values).2.node r).id =
      label.id := ((hstands.refreshed _).based.keyed.of_get? hfound).2
  exact ⟨r, hfound, Directory.standing_of_older hliving (hcached r), hid,
    htended.user r (hid ▸ hfree)⟩

/-! ### Requests that succeed -/

/-- A session with a handle on a label, whose store has these labels and no failure to come. -/
structure Holding (called : EntityRef → Option String) (e : EntityRef) (x : Entity)
    (labels : Table String LabelRecord) (s : Session Bench) : Prop where
  kept : Kept called s
  entity : s.entity? e = some x
  planned : s.outside.store.planned = .empty
  labels : s.outside.store.labels = labels

namespace Holding

variable {e : EntityRef} {x : Entity} {labels : Table String LabelRecord}
  (h : Holding called e x labels s)
include h

theorem free (m : Remote.Method) : s.outside.store.planned.get? m = none := by
  rw [h.planned]
  rfl

theorem withStore {store : Store} (hstore : store.Neat) (hplanned : store.planned = .empty) :
    Holding called e x store.labels (s.withStore store) :=
  ⟨h.kept.withStore hstore, h.entity, hplanned, rfl⟩

theorem listLabels_ok : Call.Ends (onOutside (MailService.listLabels (σ := Bench))) s
    (fun records t => records = labels.values ∧ Holding called e x labels t) fun _ _ => False := by
  refine ends_onStore (.of_run (Store.listLabels_run (h.free _)) ⟨by rw [h.labels], ?_⟩)
  exact h.labels ▸ h.withStore (h.kept.neat.logged .listLabels) h.planned

theorem refresh_ok : Call.Ends refresh s (fun _ t => Holding called e x labels t ∧
      ∀ label ∈ labels.values, label.origin = .user → isFixedId label.id = false →
        (∀ other ∈ labels.values, other.name = label.name → other = label) →
        ∃ r, Awaits t.directory label.id r) fun _ _ => False := by
  refine h.listLabels_ok.andThen fun records t hlisted => ?_
  obtain ⟨rfl, ht⟩ := hlisted
  refine ⟨⟨(ht.kept.refreshed _).toKept, ht.entity, ht.planned, ht.labels⟩,
    fun label hlabel huser hfree hname => ?_⟩
  rw [← ht.labels] at hlabel hname ⊢
  exact ht.kept.awaits hlabel huser hfree hname

theorem deleteLabel_ok {id : String} (hthere : labels.has id = true) :
    Call.Ends (onOutside (MailService.deleteLabel (σ := Bench) id)) s
      (fun _ => Holding called e x (labels.remove id)) fun _ _ => False := by
  have hrun := Store.deleteLabel_run (h.free _) (h.labels ▸ hthere)
  refine ends_onStore (.of_run hrun ?_)
  exact h.labels ▸ h.withStore ((h.kept.neat.logged (.deleteLabel id)).remove id) h.planned

theorem deleteBelow_ok (above : String) :
    Call.Ends ((below above labels.values).forM fun r =>
        onOutside (MailService.deleteLabel (σ := Bench) r.id)) s
      (fun _ => Holding called e x
        ⟨labels.entries.filter fun entry => !Store.isBelow above entry.2⟩) fun _ _ => False := by
  obtain ⟨store, hrun, hstore, hplanned, hlabels⟩ :=
    Store.forM_below_run h.kept.neat h.planned above
  have hall := forM_onStore (below above s.outside.store.labels.values)
    (fun r => MailService.deleteLabel (σ := Store) r.id) s
  rw [hrun] at hall
  have hend := h.withStore hstore hplanned
  rw [hlabels] at hend
  rw [← h.labels]
  exact .of_run hall hend

/-! ### What a handle does -/

/-- Deleting a label with those below it goes by the id and by the name of the handle. -/
theorem delete_ok (hthere : labels.has x.id = true) : Call.Ends (deleteLabel e true) s
    (fun _ t => t.outside.store.labels = Store.labelsBeside labels x.id x.name)
    fun _ _ => False := by
  rw [deleteLabel]
  refine Call.Ends.getThen ?_
  rw [entityId_of_entity? h.entity]
  refine (h.deleteLabel_ok hthere).andThen fun _ t ht => ?_
  refine ht.listLabels_ok.andThen fun records t hlisted => Call.Ends.getThen ?_
  obtain ⟨hrecords, ht⟩ := hlisted
  have hname : t.entityName e = x.name := by
    rw [entityName, ht.entity]
    rfl
  rw [hname, hrecords]
  refine (ht.deleteBelow_ok x.name).andThen fun _ t ht => ?_
  refine ht.refresh_ok.andThen fun _ t hrefreshed => ?_
  obtain ⟨ht, -⟩ := hrefreshed
  exact ht.labels.trans (Store.labelsBeside_eq labels x.id x.name)

theorem load_ok {r : NodeRef} {record : LabelRecord} (hid : (s.directory.node r).id = record.id)
    (hrecord : labels.get? record.id = some record) : Call.Ends (load r) s
      (fun f t => t.entity? f = some (.ofRecord (s.directory.node r).kind record) ∧
        t.outside.store.labels = labels) fun _ _ => False := by
  have hget : Call.Ends (onOutside (MailService.getLabel (σ := Bench) record.id)) s
      (fun label t => label = record ∧ ∃ store, t = s.withStore store ∧ store.labels = labels)
      fun _ _ => False := by
    have hrun := Store.getLabel_run record.id (h.free .getLabel)
    rw [h.labels, hrecord] at hrun
    exact ends_onStore (.of_run hrun ⟨rfl, _, rfl, h.labels⟩)
  rw [load]
  refine Call.Ends.getThen ?_
  dsimp only
  rw [hid]
  refine hget.andThen fun label t hfound => ?_
  obtain ⟨rfl, store, rfl, hlabels⟩ := hfound
  exact ⟨Array.getElem?_push_size, hlabels⟩

theorem entity_ok {r : NodeRef} {record : LabelRecord} (hr : Awaits s.directory record.id r)
    (hrecord : labels.get? record.id = some record) : Call.Ends (Session.entity r) s
      (fun f t => t.entity? f = some ⟨.user, record⟩ ∧ t.outside.store.labels = labels)
      fun _ _ => False := by
  rw [Session.entity]
  refine Call.Ends.getThen ?_
  rw [hr.standing]
  change Call.Ends (load r >>= _) s _ _
  refine (h.load_ok hr.id hrecord).andThen fun f t ht => ?_
  rw [hr.kind] at ht
  exact ht

theorem createLabel_ok {body : LabelBody}
    (hnew : ∀ label ∈ labels.values, label.name ≠ body.name.getD "") :
    Call.Ends (onOutside (MailService.createLabel (σ := Bench) body)) s
      (fun id t => ∃ record : LabelRecord, record.id = id ∧ record.name = body.name.getD "" ∧
        record.origin = .user ∧ isFixedId record.id = false ∧
        Holding called e x (labels.put record.id record) t) fun _ _ => False := by
  have hrun := Store.createLabel_run h.kept.neat (h.free .createLabel) (h.labels ▸ hnew)
  refine ends_onStore (.of_run hrun ⟨s.outside.store.newLabel body, rfl, rfl, rfl,
    isFixedId_of_counted _, ?_⟩)
  exact h.labels ▸ h.withStore ((h.kept.neat.logged (.createLabel body)).put _ _) h.planned

/-- A label is made under a name that no other has, and its handle is handed out. -/
theorem create_ok (name : String) (options : LabelOptions)
    (hnew : ∀ label ∈ labels.values, label.name ≠ name) :
    Call.Ends (createLabel name options) s (fun f t => ∃ record, record.name = name ∧
      record.origin = .user ∧ t.entity? f = some ⟨.user, record⟩ ∧
      t.outside.store.labels = labels.put record.id record) fun _ _ => False := by
  rw [createLabel]
  refine Call.Ends.andThen (h.createLabel_ok (by exact hnew)) fun id t hid => ?_
  obtain ⟨record, hid, hname, huser, hfree, ht⟩ := hid
  subst hid
  refine ht.refresh_ok.andThen fun _ t hrefreshed => ?_
  obtain ⟨ht, hawaits⟩ := hrefreshed
  have hmember : record ∈ (labels.put record.id record).values :=
    List.mem_map_of_mem (Table.mem_put_self labels record.id record)
  obtain ⟨r, hr⟩ := hawaits record hmember huser hfree fun other hother hsame => by
    obtain ⟨entry, hentry, rfl⟩ := List.mem_map.mp hother
    rcases Table.mem_entries_put hentry with rfl | hold
    · rfl
    · exact absurd (hsame.trans hname) (hnew _ (List.mem_map_of_mem hold))
  have hnode : Call.Ends (nodeById record.id) t (fun q u => q = r ∧ u = t) fun _ _ => False := by
    simp only [Call.Ends, nodeById, Call.run_bind, Call.run_get, Label.Registry.getById, hr.found]
    exact ⟨rfl, rfl⟩
  refine hnode.andThen fun q u hlooked => ?_
  obtain ⟨rfl, rfl⟩ := hlooked
  refine (ht.entity_ok hr (Table.get?_put_self _ _ _)).andThen fun f u hshown => ?_
  obtain ⟨hf, hlabels⟩ := hshown
  refine Call.Ends.getThen ?_
  rw [if_pos (entityKind_of_entity? hf)]
  exact ⟨record, hname, huser, hf, hlabels⟩

end Holding

/-- A handle of the user's goes by the name that the service had for its label when it was last
read. Through it labels are made below that name, and deleting with all below it takes the label
itself and what is below that name: the label's own descendants as long as the name is still its
own, and else those of whatever has the name now. -/
theorem handle_by_last_name {first t : Session Bench} (hdirectory : first.directory = .initial)
    (hentities : first.entities = #[]) (hstore : first.outside.store.Neat)
    (hrun : LabelRun first called t) (hplanned : t.outside.store.planned = .empty)
    {e : EntityRef} {x : Entity} (hx : t.entity? e = some x) (huser : x.kind = .user)
    {label : LabelRecord} (hlabel : t.outside.store.labels.get? x.id = some label) :
    ∃ former, called e = some former ∧
      (∀ name options,
        (∀ other ∈ t.outside.store.labels.values, other.name ≠ former ++ "/" ++ name) →
        ∃ child record u, (createChild e name options).run t = (.ok child, u) ∧
          record.name = former ++ "/" ++ name ∧ record.origin = .user ∧
          u.entity? child = some ⟨.user, record⟩ ∧
          u.outside.store.labels = t.outside.store.labels.put record.id record) ∧
      ∃ u, (deleteLabel e true).run t = (.ok (), u) ∧
        u.outside.store.labels = Store.labelsBeside t.outside.store.labels x.id former := by
  have htracked := hrun.tracked hdirectory hentities hstore
  have hholding : Holding called e x t.outside.store.labels t :=
    ⟨htracked.toKept, hx, hplanned, rfl⟩
  refine ⟨x.name, htracked.names e x hx huser, fun name options hnew => ?_, ?_⟩
  · have hname : t.entityName e = x.name := by
      rw [entityName, hx]
      rfl
    have hcreate : Call.Ends (createChild e name options) t _ fun _ _ => False :=
      Call.Ends.getThen (by rw [hname]; exact hholding.create_ok _ options hnew)
    obtain ⟨child, u, hrun, record, hrecord, horigin, hchild, hlabels⟩ := hcreate.exists_ok
    exact ⟨child, record, u, hrun, hrecord, horigin, hchild, hlabels⟩
  · have hthere : t.outside.store.labels.has x.id = true := by
      rw [Table.has, hlabel]
      rfl
    obtain ⟨_, u, hrun, hlabels⟩ := (hholding.delete_ok hthere).exists_ok
    exact ⟨u, hrun, hlabels⟩

theorem LabelRun.next {first : Session Bench} (h : LabelRun first called s) (step : LabelStep)
    (handle : Option EntityRef) (hok : (step.op.run s).1.toOption = some handle) :
    LabelRun first (read called handle (step.op.run s).2) (step.op.run s).2 :=
  h.step step (Call.run_of_toOption hok)

/-- A label is renamed through a later handle: a child that is made through the first one is not
made below the label. -/
theorem handle_by_last_name_renamed :
    let first : Session Bench := { outside := { store := (Store.initial.seedLabel "Work" none).2 } }
    ∃ called t child u, LabelRun first called t ∧ called ⟨0⟩ = some "Work" ∧
      t.remoteName ⟨0⟩ = some "Archive" ∧
      (createChild ⟨0⟩ "Clients" {}).run t = (.ok child, u) ∧
      u.remoteName child = some "Work/Clients" := by
  intro first
  have hrefresh := (.start : LabelRun first _ first).next .refresh none (by decide +kernel)
  have hload := hrefresh.next (.load ⟨14⟩) (some ⟨0⟩) (by decide +kernel)
  have hagain := (hload.next .refresh none (by decide +kernel)).next (.load ⟨14⟩) (some ⟨1⟩)
    (by decide +kernel)
  have hrun := hagain.next (.update ⟨1⟩ (some "Archive") {}) (some ⟨1⟩) (by decide +kernel)
  let label := fun name : String => ({ id := "Label_1", name, origin := .user } : LabelRecord)
  have hdirectory : first.directory = .initial := rfl
  have hentities : first.entities = #[] := rfl
  obtain ⟨former, hformer, hcreate, -⟩ := handle_by_last_name hdirectory hentities
    (Store.initial_neat.seedLabel "Work" none) hrun
    (Table.eq_empty (by decide +kernel))
    (by decide +kernel : Session.entity? _ (⟨0⟩ : EntityRef) = some ⟨.user, label "Work"⟩) rfl
    (by decide +kernel : _ = some (label "Archive"))
  obtain rfl : former = "Work" := Option.some.inj (hformer.symm.trans (by decide +kernel))
  obtain ⟨child, record, u, hchild, hname, -, hentity, hlabels⟩ :=
    hcreate "Clients" {} (by decide +kernel)
  refine ⟨_, _, child, u, hrun, hformer, by decide +kernel, hchild, ?_⟩
  rw [remoteName_of_entity? hentity, hlabels]
  exact (congrArg _ (Table.get?_put_self _ record.id record)).trans (congrArg some hname)

end Session

end Mailroom
