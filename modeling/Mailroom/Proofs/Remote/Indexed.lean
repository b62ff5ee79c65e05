import Mailroom.Proofs.Remote.Answers

/-! Requests to a store whatever failures are planned for them, and labels indexed under their own
ids: a store that keeps every label under the label's own id goes on to do so, whatever is asked of
it and whatever fails. -/

namespace Mailroom.Remote.Store

/-- Every label is kept under its own id. -/
def Indexed (s : Store) : Prop := ∀ id label, s.labels.get? id = some label → label.id = id

theorem initial_indexed : initial.Indexed := initial_sound.labels

variable {s t : Store}

/-- The store after a request: it is logged, and the failure that was planned for it is over. -/
def asked (s : Store) (r : Request) : Store :=
  { s with calls := s.calls ++ [r], planned := s.planned.remove r.method }

theorem reads_asked (s : Store) (r : Request) : s.Reads (s.asked r) := by
  refine ⟨rfl, rfl, fun method failure h => ?_⟩
  rw [asked, Table.get?_remove] at h
  split at h
  · cases h
  · exact h

theorem record_eq (r : Request) (s : Store) : (record r).run s =
    (match s.planned.get? r.method with
      | none => .ok ⟨⟩
      | some failure => .error failure, s.asked r) := by
  simp only [record, Call.run_bind, Call.run_modify, Call.run_get]
  cases hplanned : s.planned.get? r.method with
  | none =>
    have hnone : s.planned.remove r.method = s.planned := by
      have hkeys := Table.get?_eq_none_iff.mp hplanned
      refine congrArg Table.mk (List.filter_eq_self.mpr fun entry hentry => ?_)
      exact bne_iff_ne.mpr fun heq => hkeys (heq ▸ List.mem_map_of_mem hentry)
    rw [asked, hnone]
    rfl
  | some failure => rfl

theorem getLabel_eq (id : String) (s : Store) : (MailService.getLabel (σ := Store) id).run s =
    (match s.planned.get? .getLabel with
      | some failure => .error failure
      | none => match s.labels.get? id with
        | some label => .ok label
        | none => .error (.api ("label " ++ id ++ " not found")), s.asked (.getLabel id)) := by
  simp only [MailService.getLabel, Call.run_bind, record_eq]
  rw [show Request.method (.getLabel id) = .getLabel from rfl]
  cases s.planned.get? .getLabel with
  | some failure => rfl
  | none =>
    simp only [findLabel, Call.run_bind, Call.run_get, asked]
    cases s.labels.get? id <;> rfl

theorem listLabels_eq (s : Store) : (MailService.listLabels (σ := Store)).run s =
    (match s.planned.get? .listLabels with
      | some failure => .error failure
      | none => .ok s.labels.values, s.asked .listLabels) := by
  simp only [MailService.listLabels, Call.run_bind, record_eq]
  rw [show Request.method .listLabels = .listLabels from rfl]
  cases s.planned.get? .listLabels <;> rfl

namespace Indexed

theorem of_labels (h : s.Indexed) (hlabels : t.labels = s.labels) : t.Indexed := by
  rw [Indexed, hlabels]
  exact h

theorem put (h : s.Indexed) (label : LabelRecord) (n : Nat) :
    Indexed { s with labels := s.labels.put label.id label, nextLabel := n } := by
  intro id other hother
  rw [Table.get?_put] at hother
  split at hother
  · subst id
    exact congrArg LabelRecord.id (Option.some.inj hother).symm
  · exact h id other hother

theorem remove (h : s.Indexed) (id : String) :
    Indexed { s with labels := s.labels.remove id } := by
  intro other label hlabel
  rw [Table.get?_remove] at hlabel
  split at hlabel
  · cases hlabel
  · exact h other label hlabel

/-- A change to labels that leaves their ids alone. -/
theorem modify (h : s.Indexed) (id : String) {f : LabelRecord → LabelRecord}
    (hf : ∀ label, (f label).id = label.id) :
    Indexed { s with labels := s.labels.modify id f } := by
  intro other label hlabel
  rw [Table.get?_modify] at hlabel
  split at hlabel
  · obtain ⟨old, hold, rfl⟩ := Option.map_eq_some_iff.mp hlabel
    exact (hf old).trans (h other old hold)
  · exact h other label hlabel

theorem renameLabel (h : s.Indexed) (id old new : String) : (s.renameLabel id old new).Indexed := by
  have hmoved : Indexed { s with
      labels := s.labels.map fun label => { label with name := renamed old new label.name } } := by
    intro other label hlabel
    rw [Table.get?_map] at hlabel
    obtain ⟨before, hbefore, rfl⟩ := Option.map_eq_some_iff.mp hlabel
    exact h other before hbefore
  exact hmoved.modify id fun _ => rfl

/-! ### Requests -/

variable (h : s.Indexed)
include h

theorem record (r : Request) : Call.Ends (record r) s (fun _ => Indexed) fun _ => Indexed := by
  rw [Call.Ends, record_eq]
  cases s.planned.get? r.method <;> exact h.of_labels rfl

theorem findLabel (id : String) :
    Call.Ends (findLabel id) s (fun _ => Indexed) fun _ => Indexed := by
  simp only [Call.Ends, Store.findLabel, Call.run_bind, Call.run_get]
  cases s.labels.get? id <;> exact h

theorem findMessage (id : String) :
    Call.Ends (findMessage id) s (fun _ => Indexed) fun _ => Indexed := by
  rw [Call.Ends, findMessage_run]
  cases s.lookUp id <;> exact h

theorem listLabels : Call.Ends (MailService.listLabels (σ := Store)) s (fun _ => Indexed)
    fun _ => Indexed :=
  (h.record .listLabels).andThen fun _ _ ht => ht

theorem createLabel (body : LabelBody) : Call.Ends (MailService.createLabel (σ := Store) body) s
    (fun _ => Indexed) fun _ => Indexed := by
  refine (h.record (.createLabel body)).andThen fun _ t ht => Call.Ends.getThen ?_
  dsimp only
  split
  · exact ht
  · refine Call.Ends.getThen (.of_run rfl ?_)
    have hput := ht.put
      { id := "Label_" ++ t.nextLabel.repr, name := body.name.getD "", origin := .user }
      (t.nextLabel + 1)
    exact hput.modify _ fun _ => rfl

theorem updateLabel (id : String) (body : LabelBody) :
    Call.Ends (MailService.updateLabel (σ := Store) id body) s (fun _ => Indexed)
      fun _ => Indexed := by
  refine (h.record (.updateLabel id body)).andThen fun _ t ht => ?_
  refine (ht.findLabel id).andThen fun label t ht => ?_
  cases body.name with
  | none => exact ht.modify id fun _ => rfl
  | some name => exact (ht.renameLabel id label.name name).modify id fun _ => rfl

theorem deleteLabel (id : String) : Call.Ends (MailService.deleteLabel (σ := Store) id) s
    (fun _ => Indexed) fun _ => Indexed := by
  refine (h.record (.deleteLabel id)).andThen fun _ t ht => ?_
  exact (ht.findLabel id).andThen fun _ t ht => ht.remove id

theorem changeLabels (c : LabelChange) (ids : List String) :
    (ids.foldl (Store.changeLabels · c) s).Indexed := by
  induction ids generalizing s with
  | nil => exact h
  | cons id ids ih => exact ih (h.of_labels rfl)

theorem dropMessages (ids : List String) : (ids.foldl dropMessage s).Indexed := by
  induction ids generalizing s with
  | nil => exact h
  | cons id ids ih => exact ih (h.of_labels rfl)

theorem listMessages (q : ListQuery) : Call.Ends (MailService.listMessages (σ := Store) q) s
    (fun _ => Indexed) fun _ => Indexed :=
  (h.record (.listMessages q)).andThen fun _ _ ht => ht

theorem getMessage (id : String) : Call.Ends (MailService.getMessage (σ := Store) id) s
    (fun _ => Indexed) fun _ => Indexed :=
  (h.record (.getMessage id)).andThen fun _ _ ht => ht.findMessage id

theorem getMessages (ids : List String) : Call.Ends (MailService.getMessages (σ := Store) ids) s
    (fun _ => Indexed) fun _ => Indexed := by
  refine (h.record (.getMessages ids)).andThen fun _ t ht => ?_
  rw [Call.Ends, mapM_findMessage_run]
  cases ids.mapM t.lookUp <;> exact ht

theorem modifyMessage (id : String) (c : LabelChange) :
    Call.Ends (MailService.modifyMessage (σ := Store) id c) s (fun _ => Indexed) fun _ => Indexed :=
  (h.record (.modifyMessage id c)).andThen fun _ _ ht =>
    (ht.findMessage id).andThen fun _ _ ht => ht.of_labels rfl

theorem trashMessage (id : String) : Call.Ends (MailService.trashMessage (σ := Store) id) s
    (fun _ => Indexed) fun _ => Indexed :=
  (h.record (.trashMessage id)).andThen fun _ _ ht => ht.of_labels rfl

theorem untrashMessage (id : String) : Call.Ends (MailService.untrashMessage (σ := Store) id) s
    (fun _ => Indexed) fun _ => Indexed :=
  (h.record (.untrashMessage id)).andThen fun _ _ ht => ht.of_labels rfl

theorem deleteMessage (id : String) : Call.Ends (MailService.deleteMessage (σ := Store) id) s
    (fun _ => Indexed) fun _ => Indexed :=
  (h.record (.deleteMessage id)).andThen fun _ _ ht => ht.of_labels rfl

theorem deleteMessages (ids : List String) :
    Call.Ends (MailService.deleteMessages (σ := Store) ids) s (fun _ => Indexed) fun _ => Indexed :=
  (h.record (.deleteMessages ids)).andThen fun _ _ ht => ht.dropMessages ids

theorem modifyMessages (ids : List String) (c : LabelChange) :
    Call.Ends (MailService.modifyMessages (σ := Store) ids c) s (fun _ => Indexed)
      fun _ => Indexed :=
  (h.record (.modifyMessages ids c)).andThen fun _ _ ht => ht.changeLabels c ids

end Indexed

end Mailroom.Remote.Store
