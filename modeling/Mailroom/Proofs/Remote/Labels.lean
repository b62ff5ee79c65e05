import Mailroom.Proofs.Remote.Indexed

/-! Requests that change the labels of the store. They keep every label under its own id and in one
place, whatever they change; and when no failure is planned, making a label puts one at its id, and
deleting labels takes those away that are named, and no other. -/

namespace Mailroom.Remote.Store

variable {s t : Store}

/-! ### Tables of labels without some -/

/-- A table of labels without those of some ids. -/
def without (labels : Table String LabelRecord) (ids : List String) : Table String LabelRecord :=
  ⟨labels.entries.filter fun entry => !ids.contains entry.1⟩

theorem without_nil (labels : Table String LabelRecord) : without labels [] = labels := by
  simp [without]

theorem without_append (labels : Table String LabelRecord) (ids more : List String) :
    without (without labels ids) more = without labels (ids ++ more) := by
  simp [without, List.filter_filter, Bool.and_comm]

theorem without_singleton (labels : Table String LabelRecord) (id : String) :
    without labels [id] = labels.remove id := by
  refine congrArg Table.mk (List.filter_congr fun entry _ => ?_)
  rw [List.contains_cons, List.contains_nil, Bool.or_false]
  rfl

/-! ### Labels in one place -/

/-- A sound store that keeps every label in one place. -/
structure Neat (s : Store) : Prop extends Sound s where
  once : s.labels.keys.Nodup

theorem initial_neat : initial.Neat := ⟨initial_sound, by decide +kernel⟩

namespace Neat

theorem reads (h : s.Neat) (hreads : Reads s t) : t.Neat :=
  ⟨hreads.sound h.toSound, hreads.labels ▸ h.once⟩

theorem logged (h : s.Neat) (r : Request) : (s.logged r).Neat :=
  ⟨⟨h.labels, h.messages, h.planned⟩, h.once⟩

theorem withLabels (h : s.Neat) {labels : Table String LabelRecord} (hkeys : labels.keys.Nodup)
    (hids : ∀ id label, labels.get? id = some label → label.id = id) (n : Nat) :
    Neat { s with labels, nextLabel := n } :=
  ⟨⟨hids, h.messages, h.planned⟩, hkeys⟩

theorem modify (h : s.Neat) (id : String) {f : LabelRecord → LabelRecord}
    (hf : ∀ label, (f label).id = label.id) :
    Neat { s with labels := s.labels.modify id f } :=
  h.withLabels (by simpa using h.once) (Indexed.modify h.labels id hf) s.nextLabel

theorem renameLabel (h : s.Neat) (id old new : String) : (s.renameLabel id old new).Neat :=
  h.withLabels (by simpa [Store.renameLabel] using h.once) (Indexed.renameLabel h.labels id old new)
    s.nextLabel

theorem put (h : s.Neat) (label : LabelRecord) (n : Nat) :
    Neat { s with labels := s.labels.put label.id label, nextLabel := n } :=
  h.withLabels (Table.nodup_put h.once _ _) (Indexed.put h.labels label n) n

theorem remove (h : s.Neat) (id : String) : Neat { s with labels := s.labels.remove id } :=
  h.withLabels (Table.nodup_remove h.once id) (Indexed.remove h.labels id) s.nextLabel

theorem seedLabel (h : s.Neat) (name : String) (id? : Option String) :
    (s.seedLabel name id?).2.Neat := by
  cases id? with
  | none =>
    exact h.put { id := "Label_" ++ s.nextLabel.repr, name, origin := .user } (s.nextLabel + 1)
  | some id => exact h.put { id, name, origin := .user } s.nextLabel

theorem id_eq (h : s.Neat) {entry : String × LabelRecord} (hentry : entry ∈ s.labels.entries) :
    entry.2.id = entry.1 :=
  h.labels _ _ (Table.get?_of_mem h.once hentry)

theorem map_id (h : s.Neat) : s.labels.values.map (·.id) = s.labels.keys := by
  rw [Table.values, List.map_map]
  exact List.map_congr_left fun entry hentry => h.id_eq hentry

theorem nodup_ids (h : s.Neat) : (s.labels.values.map (·.id)).Nodup := h.map_id ▸ h.once

theorem eq_of_id (h : s.Neat) {label other : LabelRecord} (hlabel : label ∈ s.labels.values)
    (hother : other ∈ s.labels.values) (hid : label.id = other.id) : label = other :=
  List.inj_on_of_nodup_map h.nodup_ids hlabel hother hid

theorem get?_id (h : s.Neat) {label : LabelRecord} (hlabel : label ∈ s.labels.values) :
    s.labels.get? label.id = some label := by
  obtain ⟨⟨key, _⟩, hentry, rfl⟩ := List.mem_map.mp hlabel
  rw [h.id_eq hentry]
  exact Table.get?_of_mem h.once hentry

/-- Taking the labels with a property away by their ids. -/
theorem without_filter (h : s.Neat) (p : LabelRecord → Bool) :
    without s.labels ((s.labels.values.filter p).map (·.id)) =
      ⟨s.labels.entries.filter fun entry => !p entry.2⟩ := by
  refine congrArg Table.mk (List.filter_congr fun entry hentry => congrArg not ?_)
  have hvalue : entry.2 ∈ s.labels.values := List.mem_map_of_mem hentry
  rw [Bool.eq_iff_iff, List.contains_iff_mem, ← h.id_eq hentry]
  constructor
  · intro hmem
    obtain ⟨label, hlabel, hid⟩ := List.mem_map.mp hmem
    obtain ⟨hlisted, hp⟩ := List.mem_filter.mp hlabel
    exact h.eq_of_id hlisted hvalue hid ▸ hp
  · exact fun hp => List.mem_map_of_mem (List.mem_filter.mpr ⟨hvalue, hp⟩)

/-! ### Requests -/

variable (h : s.Neat)
include h

theorem record_ends (r : Request) :
    Call.Ends (record r) s (fun _ => Neat) fun _ _ => True :=
  (Store.record_ends h.toSound r).imp (fun _ _ hreads => h.reads hreads) fun _ _ _ => trivial

theorem findLabel_ends (id : String) :
    Call.Ends (findLabel id) s (fun _ => Neat) fun _ _ => True := by
  simp only [Call.Ends, findLabel, Call.run_bind, Call.run_get]
  cases s.labels.get? id with
  | none => trivial
  | some label => exact h

end Neat

theorem getLabel_finds (h : s.Sound) (id : String) :
    Call.Ends (MailService.getLabel (σ := Store) id) s
      (fun label t => Reads s t ∧ t.labels.get? id = some label) fun _ _ => True := by
  refine ((Store.record_ends h (.getLabel id)).imp (fun _ _ hreads => hreads)
    fun _ _ _ => trivial).andThen fun _ t ht => ?_
  simp only [Call.Ends, findLabel, Call.run_bind, Call.run_get]
  cases hlabel : t.labels.get? id with
  | none => trivial
  | some label => exact ⟨ht, hlabel⟩

/-- The label that the store makes of a request. -/
def newLabel (s : Store) (body : LabelBody) : LabelRecord where
  id := "Label_" ++ s.nextLabel.repr
  name := body.name.getD ""
  origin := .user
  labelListVisibility := body.labelListVisibility
  messageListVisibility := body.messageListVisibility

/-- The store with a label made. -/
def withNew (s : Store) (body : LabelBody) : Store :=
  { s with labels := s.labels.put (s.newLabel body).id (s.newLabel body)
           nextLabel := s.nextLabel + 1 }

theorem createLabel_eq (h : s.Neat) (body : LabelBody) :
    (MailService.createLabel (σ := Store) body).run s =
      match (record (.createLabel body)).run s with
      | (.ok _, t) =>
        if t.labels.values.any (·.name == body.name.getD "") = true then
          (.error (.api ("label name exists: " ++ body.name.getD "")), t)
        else (.ok (t.newLabel body).id, t.withNew body)
      | (.error failure, t) => (.error failure, t) := by
  simp only [MailService.createLabel, Call.run_bind]
  rcases hrecord : (record (.createLabel body)).run s with ⟨failure | _, t⟩
  · rfl
  · have hmade : { (t.seedLabel (body.name.getD "") none).2 with
        labels := (t.seedLabel (body.name.getD "") none).2.labels.modify
          (t.seedLabel (body.name.getD "") none).1 fun label =>
            { label with
              labelListVisibility := body.labelListVisibility
              messageListVisibility := body.messageListVisibility } } = t.withNew body := by
      simp only [seedLabel, withNew, Table.modify_put ((h.record_ends _).ok hrecord).once]
      rfl
    simp only [Call.run_get]
    rw [← hmade]
    by_cases hname : t.labels.values.any (·.name == body.name.getD "") = true
    · simp only [hname, if_true]
      rfl
    · simp only [hname]
      rfl

theorem createLabel_ends (h : s.Neat) (body : LabelBody) :
    Call.Ends (MailService.createLabel (σ := Store) body) s (fun _ => Neat) fun _ _ => True := by
  rw [Call.Ends, createLabel_eq h]
  rcases hrecord : (record (.createLabel body)).run s with ⟨failure | _, t⟩
  · trivial
  · have ht : t.Neat := (h.record_ends _).ok hrecord
    by_cases hname : t.labels.values.any (·.name == body.name.getD "") = true
    · simp only [hname, if_true]
    · simp only [hname]
      exact ht.put (t.newLabel body) (t.nextLabel + 1)

theorem updateLabel_ends (h : s.Neat) (id : String) (body : LabelBody) :
    Call.Ends (MailService.updateLabel (σ := Store) id body) s (fun _ => Neat) fun _ _ => True := by
  refine (h.record_ends (.updateLabel id body)).andThen fun _ t ht => ?_
  refine (ht.findLabel_ends id).andThen fun label t ht => ?_
  cases body.name with
  | none => exact ht.modify id fun _ => rfl
  | some name => exact (ht.renameLabel id label.name name).modify id fun _ => rfl

theorem deleteLabel_ends (h : s.Neat) (id : String) :
    Call.Ends (MailService.deleteLabel (σ := Store) id) s (fun _ => Neat) fun _ _ => True := by
  refine (h.record_ends (.deleteLabel id)).andThen fun _ t ht => ?_
  exact (ht.findLabel_ends id).andThen fun _ t ht => ht.remove id

/-! ### Requests that nothing is planned for -/

theorem createLabel_run (h : s.Neat) {body : LabelBody}
    (hplanned : s.planned.get? .createLabel = none)
    (hnew : ∀ label ∈ s.labels.values, label.name ≠ body.name.getD "") :
    (MailService.createLabel (σ := Store) body).run s =
      (.ok (s.newLabel body).id, (s.logged (.createLabel body)).withNew body) := by
  have hname : s.labels.values.any (·.name == body.name.getD "") = false := by
    simpa using hnew
  rw [createLabel_eq h, record_run (.createLabel body) hplanned]
  simp only [logged, hname]
  rfl

theorem deleteLabel_run {id : String} (hplanned : s.planned.get? .deleteLabel = none)
    (hthere : s.labels.has id = true) :
    (MailService.deleteLabel (σ := Store) id).run s =
      (.ok (), { s.logged (.deleteLabel id) with labels := s.labels.remove id }) := by
  obtain ⟨label, hlabel⟩ := Option.isSome_iff_exists.mp hthere
  simp only [MailService.deleteLabel, Call.run_bind, record_run (.deleteLabel id) hplanned,
    findLabel, Call.run_get, logged, hlabel, Call.run_pure, Call.run_modify]

/-- Deleting the labels of a listing, one after the other, takes just them away. -/
theorem forM_deleteLabel_run {records : List LabelRecord} (h : s.planned = .empty)
    (hids : (records.map (·.id)).Nodup) (hthere : ∀ r ∈ records, s.labels.has r.id = true) :
    ∃ t, (records.forM fun r => MailService.deleteLabel (σ := Store) r.id).run s = (.ok ⟨⟩, t) ∧
      t.planned = .empty ∧
      t.labels = without s.labels (records.map (·.id)) := by
  induction records generalizing s with
  | nil => exact ⟨s, rfl, h, (without_nil _).symm⟩
  | cons r records ih =>
    obtain ⟨hnew, hrest⟩ := List.nodup_cons.mp hids
    have hplanned : s.planned.get? .deleteLabel = none := by rw [h]; rfl
    obtain ⟨t, hrun, ht, hlabels⟩ := ih (s := { s.logged (.deleteLabel r.id) with
      labels := s.labels.remove r.id }) h hrest fun q hq => by
        have hne : q.id ≠ r.id := fun heq => hnew (List.mem_map.mpr ⟨q, hq, heq⟩)
        rw [Table.has, Table.get?_remove, if_neg hne]
        exact hthere q (List.mem_cons_of_mem _ hq)
    refine ⟨t, ?_, ht, ?_⟩
    · rw [List.forM, Call.run_bind, deleteLabel_run hplanned (hthere r List.mem_cons_self)]
      exact hrun
    · rw [hlabels, ← without_singleton, without_append]
      rfl

end Mailroom.Remote.Store
