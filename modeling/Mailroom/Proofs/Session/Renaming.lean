import Mailroom.Proofs.Label.Moving
import Mailroom.Proofs.Session.Deletion

/-! Renamings of labels. The store names the label and those below it anew in one request; what
follows reads the label again and refreshes. So the listing of the refresh is the one before with
the subtree of the label under its new name, and the directory moves along with it: no node is made
or evicted, and every label keeps its node. -/

namespace Mailroom

namespace Remote

theorem LabelBody.isEmpty_of_some (name : String) (options : LabelOptions) :
    (LabelBody.of (some name) options).isEmpty = false := by
  rw [LabelBody.isEmpty, beq_eq_false_iff_ne]
  intro hempty
  cases congrArg LabelBody.name hempty

namespace Store

variable {s : Store} {id old new : String} {body : LabelBody} {label : LabelRecord}

/-- The store after the label of an id was renamed and restyled. -/
def relabelled (s : Store) (id old new : String) (body : LabelBody) : Store :=
  let t := s.renameLabel id old new
  { t with labels := t.labels.modify id (restyled body) }

/-- What a label becomes when one is renamed and restyled. -/
def relabel (id old new : String) (body : LabelBody) (entry : String × LabelRecord) :
    LabelRecord :=
  if entry.1 = id then restyled body { entry.2 with name := new }
  else { entry.2 with name := renamed old new entry.2.name }

theorem values_relabelled (s : Store) (id old new : String) (body : LabelBody) :
    (s.relabelled id old new body).labels.values =
      s.labels.entries.map (relabel id old new body) := by
  simp only [relabelled, renameLabel, Table.values, Table.modify, Table.map, List.map_map]
  refine List.map_congr_left fun entry _ => ?_
  by_cases hid : entry.1 = id
  · simp [relabel, hid]
  · simp [relabel, hid]

theorem get?_relabelled (old new : String) (body : LabelBody) (h : s.labels.get? id = some label) :
    (s.relabelled id old new body).labels.get? id =
      some (restyled body { label with name := new }) := by
  rw [relabelled, Table.get?_modify, if_pos rfl, renameLabel, Table.get?_modify, if_pos rfl,
    Table.get?_map, h]
  rfl

theorem updateLabel_outcome (hlabel : s.labels.get? id = some label)
    (hname : body.name = some new) :
    Call.Ends (MailService.updateLabel (σ := Store) id body) s
      (fun _ t => t = (s.asked (.updateLabel id body)).relabelled id label.name new body)
      fun _ t => t = s.asked (.updateLabel id body) ∧ s.planned.get? .updateLabel ≠ none := by
  simp only [Call.Ends, MailService.updateLabel, Call.run_bind, record_eq]
  rw [show Request.method (.updateLabel id body) = .updateLabel from rfl]
  cases hplanned : s.planned.get? .updateLabel with
  | some failure => exact ⟨rfl, by simp⟩
  | none =>
    have hget : (s.asked (.updateLabel id body)).labels.get? id = some label := hlabel
    simp only [findLabel, Call.run_bind, Call.run_get, hget, hname]
    rfl

end Store

end Remote

namespace Session

open Label (Directory Entity EntityRef NodeRef Tag Movable Within IsTail Proper)
open Label.Directory (Based Confined Moves Shows)
open Remote (Bench LabelBody LabelOptions LabelRecord MailService Method Store)

/-! ### The listing after a renaming -/

theorem userLabels_map {entries : List (String × LabelRecord)}
    {f : String × LabelRecord → LabelRecord} {g : Tag → Tag}
    (hkept : ∀ entry, (f entry).origin = entry.2.origin ∧ (f entry).id = entry.2.id)
    (htag : ∀ entry ∈ entries, entry.2.tag ∈ userLabels (entries.map Prod.snd) →
      (f entry).tag = g entry.2.tag) :
    userLabels (entries.map f) = (userLabels (entries.map Prod.snd)).map g := by
  simp only [userLabels, List.filter_map, List.map_map]
  have hfilter : ((fun r : LabelRecord => r.origin == .user && !Label.isFixedId r.id) ∘ f) =
      (fun r : LabelRecord => r.origin == .user && !Label.isFixedId r.id) ∘ Prod.snd := by
    funext entry
    simp only [Function.comp_apply, hkept entry]
  rw [hfilter]
  refine List.map_congr_left fun entry hentry => ?_
  refine htag entry (List.mem_of_mem_filter hentry) ?_
  rw [userLabels, List.filter_map, List.map_map]
  exact List.mem_map_of_mem (f := LabelRecord.tag ∘ Prod.snd) hentry

/-- A renaming in the store moves the subtree of the label in the listing. -/
theorem userLabels_relabelled {store : Store} (h : store.Neat)
    (hp : Proper (userLabels store.labels.values)) {l : Tag}
    (hl : l ∈ userLabels store.labels.values) (new : String) (body : LabelBody) :
    userLabels (store.relabelled l.id l.name new body).labels.values =
      Label.moved l.name new (userLabels store.labels.values) := by
  rw [Store.values_relabelled]
  refine userLabels_map (fun entry => ?_) fun entry hentry hlisted => ?_
  · rw [Store.relabel]
    split <;> exact ⟨rfl, rfl⟩
  · have hkey := h.id_eq hentry
    -- Among the labels of the user the one of this name is the one of this id.
    have hiff : entry.1 = l.id ↔ entry.2.name = l.name := by
      rw [← hkey]
      constructor
      · exact fun hid => congrArg Tag.name (hp.eq_of_id hlisted hl hid)
      · exact fun hname => congrArg Tag.id (hp.eq_of_name hlisted hl hname)
    by_cases hid : entry.1 = l.id
    · rw [Store.relabel, if_pos hid, Tag.moved, Label.movedName]
      exact congrArg (Tag.mk entry.2.id) (if_pos (hiff.mp hid)).symm
    · rw [Store.relabel, if_neg hid, Tag.moved, Label.movedName]
      exact congrArg (Tag.mk entry.2.id) (if_neg (hiff.not.mp hid)).symm

/-! ### The requests of a renaming -/

/-- The methods of the requests that a renaming makes. -/
def renamingMethods : List Method := [.updateLabel, .getLabel, .listLabels]

/-- A failure is planned for one of the requests that a renaming makes. -/
def Hindered (store : Store) : Prop := ∃ m ∈ renamingMethods, store.planned.get? m ≠ none

theorem Hindered.before {store after : Store} (ha : Hindered after)
    (h : ∀ method failure, after.planned.get? method = some failure →
      store.planned.get? method = some failure) : Hindered store := by
  obtain ⟨m, hm, hplanned⟩ := ha
  obtain ⟨failure, hfailure⟩ := Option.ne_none_iff_exists'.mp hplanned
  exact ⟨m, hm, by simp [h m failure hfailure]⟩

variable {s : Session Bench} {e : EntityRef} {x : Entity} {label : LabelRecord}

theorem reload_outcome (hx : s.entity? e = some x)
    (hlabel : s.outside.store.labels.get? x.id = some label) :
    Call.Ends (reload e) s
      (fun _ t => s.outside.store.Reads t.outside.store ∧ t.entity? e = some (x.update label) ∧
        t.directory = s.directory)
      fun _ t => t.directory = s.directory ∧ Hindered s.outside.store := by
  rw [reload]
  refine Call.Ends.getThen ?_
  rw [entityId_of_entity? hx]
  have hget : Call.Ends (MailService.getLabel (σ := Store) x.id) s.outside.store
      (fun record store => record = label ∧ s.outside.store.Reads store)
      fun _ _ => Hindered s.outside.store := by
    rw [Call.Ends, Store.getLabel_eq, hlabel]
    cases hplanned : s.outside.store.planned.get? .getLabel with
    | none => exact ⟨rfl, Store.reads_asked _ _⟩
    | some failure => exact ⟨.getLabel, by simp [renamingMethods], by simp [hplanned]⟩
  have hread : Call.Ends (onOutside (MailService.getLabel (σ := Bench) x.id)) s
      (fun record t => record = label ∧ ∃ store, t = s.withStore store ∧
        s.outside.store.Reads store)
      fun _ t => t.directory = s.directory ∧ Hindered s.outside.store :=
    ends_onStore (hget.imp (fun _ store h => ⟨h.1, store, rfl, h.2⟩) fun _ _ h => ⟨rfl, h⟩)
  refine hread.andThen fun record t ht => ?_
  obtain ⟨rfl, store, rfl, hreads⟩ := ht
  refine ⟨hreads, ?_, rfl⟩
  have hsame := entity?_update (s.withStore store) e record e
  rw [if_pos rfl] at hsame
  exact hsame.trans (congrArg (Option.map (·.update record)) hx)

theorem refresh_outcome (s : Session Bench) :
    Call.Ends refresh s
      (fun _ t => t.outside.store.labels = s.outside.store.labels ∧ t.entities = s.entities ∧
        t.directory = reconciled s.directory s.outside.store.labels.values)
      fun _ t => t.directory = s.directory ∧ Hindered s.outside.store := by
  have hlist : Call.Ends (onOutside (MailService.listLabels (σ := Bench))) s
      (fun records t => records = s.outside.store.labels.values ∧
        t = s.withStore (s.outside.store.asked .listLabels))
      fun _ t => t.directory = s.directory ∧ Hindered s.outside.store := by
    refine ends_onStore ?_
    rw [Call.Ends, Store.listLabels_eq]
    cases hplanned : s.outside.store.planned.get? .listLabels with
    | none => exact ⟨rfl, rfl⟩
    | some failure => exact ⟨rfl, .listLabels, by simp [renamingMethods], by simp [hplanned]⟩
  refine hlist.andThen fun records t ht => ?_
  obtain ⟨rfl, rfl⟩ := ht
  exact ⟨rfl, rfl, rfl⟩

/-- What a renaming does: the label of the store is renamed, the loaded label is read again, and the
directory is reconciled with the listing. If a request fails, the directory is as it was. -/
theorem updateLabel_requests (hx : s.entity? e = some x)
    (hlabel : s.outside.store.labels.get? x.id = some label) (new : String)
    (options : LabelOptions) :
    Call.Ends (updateLabel e (some new) options) s
      (fun f t => f = e ∧
        t.outside.store.labels = (s.outside.store.relabelled x.id label.name new
          (LabelBody.of (some new) options)).labels ∧
        (∃ record, record.name = new ∧ t.entity? e = some (x.update record)) ∧
        t.directory = reconciled s.directory t.outside.store.labels.values)
      fun _ t => t.directory = s.directory ∧ Hindered s.outside.store := by
  rw [updateLabel, LabelBody.isEmpty_of_some]
  refine Call.Ends.getThen ?_
  rw [entityId_of_entity? hx]
  set body := LabelBody.of (some new) options
  have hasked := Store.reads_asked s.outside.store (.updateLabel x.id body)
  have hupdate : Call.Ends (onOutside (MailService.updateLabel (σ := Bench) x.id body)) s
      (fun _ t => t = s.withStore
        ((s.outside.store.asked (.updateLabel x.id body)).relabelled x.id label.name new body))
      fun _ t => t.directory = s.directory ∧ Hindered s.outside.store := by
    refine ends_onStore ((Store.updateLabel_outcome hlabel rfl).imp (fun _ store hstore => ?_)
      fun _ store hstore => ⟨rfl, .updateLabel, by simp [renamingMethods], hstore.2⟩)
    rw [hstore]
  refine hupdate.andThen fun _ t ht => ?_
  have hlabels : t.outside.store.labels =
      (s.outside.store.relabelled x.id label.name new body).labels := by rw [ht]; rfl
  have hdirectory : t.directory = s.directory := by rw [ht]; rfl
  have hplanned : ∀ method failure, t.outside.store.planned.get? method = some failure →
      s.outside.store.planned.get? method = some failure := by
    rw [ht]
    exact hasked.planned
  have hget := Store.get?_relabelled label.name new body hlabel
  rw [← hlabels] at hget
  have hxt : t.entity? e = some x := by rw [ht]; exact hx
  refine ((reload_outcome hxt hget).impFailed fun _ u hu =>
    ⟨hu.1.trans hdirectory, hu.2.before hplanned⟩).andThen fun _ u hu => ?_
  obtain ⟨hreads, hxu, hsame⟩ := hu
  refine ((refresh_outcome u).impFailed fun _ v hv => ⟨hv.1.trans (hsame.trans hdirectory),
    (hv.2.before hreads.planned).before hplanned⟩).andThen fun _ v hv => ?_
  obtain ⟨hkept, hentities, hreconciled⟩ := hv
  have hname : (Store.restyled body { label with name := new }).name = new := rfl
  refine ⟨rfl, hkept.trans (hreads.labels.trans hlabels), ⟨_, hname, ?_⟩, ?_⟩
  · rw [entity?, hentities]
    exact hxu
  · rw [hreconciled, hkept, hsame, hdirectory]

/-! ### The directory after a renaming -/

theorem confined_of_bare {d : Directory} {past : List (List LabelRecord)}
    {records : List LabelRecord} (h : d.bare = (past ++ [records]).foldl reconciled .initial) :
    Confined .initial d (userLabels records) := by
  obtain ⟨_, hbefore⟩ := stands_foldl_reconciled past
  have hregistry : d.registry = (reconciled (past.foldl reconciled .initial) records).registry := by
    rw [← List.foldl_concat reconciled, ← h]
    rfl
  rw [Confined, hregistry]
  exact hbefore.based.confined_rebuild (userLabels records)

/-- A directory that shows the labels of the user, reconciled with a listing that has one of them
and those below it under a new name. -/
theorem reconciled_moves {d : Directory} {past : List (List LabelRecord)}
    {records renamed : List LabelRecord}
    (h : d.bare = (past ++ [records]).foldl reconciled .initial) {l : Tag}
    (hl : l ∈ userLabels records) {new : String} (hm : Movable (userLabels records) l.name new)
    (hrenamed : userLabels renamed = Label.moved l.name new (userLabels records)) :
    Moves d (reconciled d renamed) (userLabels records) l new ∧
      (reconciled d renamed).nodes.size = d.nodes.size ∧
      ∀ r ∉ Directory.initial.fixed,
        ((reconciled d renamed).node r).evicted = (d.node r).evicted := by
  obtain ⟨hbased, hshows⟩ := shows_of_bare h hm.proper
  have hproper : Proper (userLabels renamed) := hrenamed ▸ hm.proper_moved
  have hafter := shows_reconciled hbased hproper
  have hback : ∀ m ∈ userLabels renamed, ∃ o ∈ userLabels records, o.id = m.id := by
    rw [hrenamed]
    intro m hmem
    obtain ⟨o, ho, rfl⟩ := List.mem_map.mp hmem
    exact ⟨o, ho, rfl⟩
  have hkept := (hbased.shows_rebuild hproper).2
  refine ⟨hshows.moves (hrenamed ▸ hafter) hm hl fun o ho => ?_, ?_⟩
  · exact hkept (o.moved l.name new) (hrenamed ▸ Label.mem_moved ho) _ (hshows.byId o ho)
  · refine hbased.rebuild_known hproper (fun m hmem => ?_) fun entry hentry => ?_
    · obtain ⟨o, ho, hid⟩ := hback m hmem
      have hfound := hshows.byId o ho
      rw [hid] at hfound
      exact congrArg Option.isSome hfound
    · refine (confined_of_bare h entry hentry).imp_right fun ⟨o, ho, hid⟩ => ?_
      exact ⟨o.moved l.name new, hrenamed ▸ Label.mem_moved ho, hid⟩

/-- Renaming a label of the user to a name that is free outside of its subtree. The store has the
subtree under the new name, and so has the directory: no node is made, none of the user's is
evicted, and `Moves` says where each stands. It succeeds when no failure is planned for its three
requests, and when it fails the directory is as it was. -/
theorem updateLabel_moves (hstore : s.outside.store.Neat) {past : List (List LabelRecord)}
    (hrefreshed : s.directory.bare =
      (past ++ [s.outside.store.labels.values]).foldl reconciled .initial)
    (hnames : ((userLabels s.outside.store.labels.values).map (·.name)).Nodup)
    (hnonempty : ∀ l ∈ userLabels s.outside.store.labels.values, l.name ≠ "")
    (hx : s.entity? e = some x) (hkind : x.kind = .user) {l : Tag}
    (hl : l ∈ userLabels s.outside.store.labels.values) (hid : l.id = x.id) {new : String}
    (hnew : new ≠ "")
    (hfree : ∀ m ∈ userLabels s.outside.store.labels.values, ¬Within l.name m.name →
      m.name ≠ new ∧ ¬Label.Above new m.name) (options : LabelOptions) :
    let labels := userLabels s.outside.store.labels.values
    Call.Ends (updateLabel e (some new) options) s
      (fun f t => f = e ∧ t.entityName e = new ∧
        userLabels t.outside.store.labels.values = Label.moved l.name new labels ∧
        t.directory.nodes.size = s.directory.nodes.size ∧
        (∀ r ∉ Directory.initial.fixed,
          (t.directory.node r).evicted = (s.directory.node r).evicted) ∧
        Moves s.directory t.directory labels l new)
      fun _ t => t.directory = s.directory ∧ Hindered s.outside.store := by
  intro labels
  have hm : Movable labels l.name new :=
    ⟨proper_userLabels hstore hnames hnonempty, hnew, fun m hmem hout =>
      not_or.mpr (hfree m hmem hout)⟩
  obtain ⟨label, hlabel, hname⟩ : ∃ label,
      s.outside.store.labels.get? x.id = some label ∧ label.name = l.name := by
    obtain ⟨label, hmem, rfl⟩ := List.mem_map.mp hl
    exact ⟨label, hid ▸ hstore.get?_id (List.mem_of_mem_filter hmem), rfl⟩
  refine (updateLabel_requests hx hlabel new options).impDone fun f t ht => ?_
  obtain ⟨rfl, hlabels, ⟨record, hrecord, hentity⟩, hdirectory⟩ := ht
  have hrenamed : userLabels t.outside.store.labels.values = Label.moved l.name new labels := by
    rw [hlabels, ← hid, hname]
    exact userLabels_relabelled hstore hm.proper hl new _
  obtain ⟨hmoves, hsize, hevicted⟩ := reconciled_moves hrefreshed hl hm hrenamed
  rw [hdirectory]
  refine ⟨rfl, ?_, hrenamed, hsize, hevicted, hmoves⟩
  rw [entityName_of_entity? hentity, Entity.name, Entity.update, hkind]
  exact hrecord

/-- `Work` is named `Work/Old`, which is the name of the label below it. That one becomes
`Work/Old/Old`; the path `Work/Old` now leads to the renamed label and `Work` to none, and the label
`Workshop` is left alone. -/
theorem updateLabel_moves_inward :
    let store : Store := (((Store.initial.seedLabel "Work" (some "Label_1")).2.seedLabel
      "Work/Old" (some "Label_2")).2.seedLabel "Workshop" (some "Label_3")).2
    let s : Session Bench :=
      { outside := { store }, directory := reconciled .initial store.labels.values
        entities := #[⟨.user, { id := "Label_1", name := "Work", origin := .user }⟩] }
    ∃ t, (updateLabel ⟨0⟩ (some "Work/Old") {}).run s = (.ok ⟨0⟩, t) ∧
      t.directory.resolve none "Work/Old" = .ok (s.directory.nodeOf ⟨"Label_1", "Work"⟩) ∧
      t.directory.resolve none "Work/Old/Old" = .ok (s.directory.nodeOf ⟨"Label_2", "Work/Old"⟩) ∧
      t.directory.resolve none "Workshop" = .ok (s.directory.nodeOf ⟨"Label_3", "Workshop"⟩) ∧
      ∃ what, t.directory.resolve none "Work" = .error (.notFound what) := by
  intro store s
  have hstore : store.Neat := ((Store.initial_neat.seedLabel _ _).seedLabel _ _).seedLabel _ _
  have hrefreshed : s.directory.bare =
      ([] ++ [store.labels.values]).foldl reconciled .initial := by
    change (reconciled .initial store.labels.values).bare = _
    rw [bare_reconciled, Directory.bare_initial]
    rfl
  have hlabels : userLabels store.labels.values =
      [⟨"Label_1", "Work"⟩, ⟨"Label_2", "Work/Old"⟩, ⟨"Label_3", "Workshop"⟩] := by decide +kernel
  have hends := updateLabel_moves (s := s) (e := ⟨0⟩) (l := ⟨"Label_1", "Work"⟩) hstore
    hrefreshed (hlabels ▸ by decide) (hlabels ▸ by decide) rfl rfl (hlabels ▸ by decide) rfl
    (by decide : "Work/Old" ≠ "") (hlabels ▸ by decide) {}
  obtain ⟨f, t, hrun, rfl, -, -, -, -, hmoves⟩ :=
    (hends.impFailed fun _ _ ⟨_, m, _, hplanned⟩ => hplanned rfl).exists_ok
  rw [hlabels] at hmoves
  refine ⟨t, hrun, ?_, ?_, ?_, ?_⟩
  · exact (hmoves.resolve _ _).mpr ⟨⟨"Label_1", "Work"⟩, by decide, by decide, rfl⟩
  · exact (hmoves.resolve _ _).mpr ⟨⟨"Label_2", "Work/Old"⟩, by decide, by decide, rfl⟩
  · exact (hmoves.resolve _ _).mpr ⟨⟨"Label_3", "Workshop"⟩, by decide, by decide, rfl⟩
  · exact (hmoves.gone ⟨"Label_1", "Work"⟩ (by decide) (Or.inl rfl)).resolve_right (by decide)

end Session

end Mailroom
