import Mailroom.Proofs.Remote.Store

/-! What the store answers to a request that no failure is planned for: the request is logged, and
the answer is made of the labels and messages that are kept. -/

namespace Mailroom.Remote.Store

variable {s t : Store}

/-- The store after a request was logged. -/
def logged (s : Store) (r : Request) : Store := { s with calls := s.calls ++ [r] }

theorem record_run (r : Request) (h : s.planned.get? r.method = none) :
    (record r).run s = (.ok ⟨⟩, s.logged r) := by
  simp only [record, Call.run_bind, Call.run_modify, Call.run_get, h, Call.run_pure]
  rfl

/-- What is found for a message, with its list of labels. -/
def lookUp (s : Store) (id : String) : Except Failure Message.Resource :=
  match s.messages.get? id with
  | some m => .ok { m with labelIds := some (m.labelIds.getD []) }
  | none => .error (.api ("message " ++ id ++ " not found"))

theorem lookUp_congr (h : t.messages = s.messages) : t.lookUp = s.lookUp := by
  funext id
  rw [lookUp, h]
  rfl

theorem findMessage_run (id : String) : (findMessage id).run s = (s.lookUp id, s) := by
  simp only [findMessage, Call.run_bind, Call.run_get, lookUp]
  cases s.messages.get? id <;> rfl

theorem mapM_findMessage_run (ids : List String) :
    (ids.mapM findMessage).run s = (ids.mapM s.lookUp, s) := by
  induction ids with
  | nil => rfl
  | cons id ids ih =>
    simp only [List.mapM_cons, Call.run_bind, findMessage_run]
    cases s.lookUp id with
    | error failure => rfl
    | ok m =>
      simp only [ih]
      cases ids.mapM s.lookUp <;> rfl

theorem listLabels_run (h : s.planned.get? .listLabels = none) :
    (MailService.listLabels (σ := Store)).run s = (.ok s.labels.values, s.logged .listLabels) := by
  simp only [MailService.listLabels, Call.run_bind, record_run .listLabels h]
  rfl

theorem getLabel_run (id : String) (h : s.planned.get? .getLabel = none) :
    (MailService.getLabel (σ := Store) id).run s =
      (match s.labels.get? id with
        | some label => .ok label
        | none => .error (.api ("label " ++ id ++ " not found")), s.logged (.getLabel id)) := by
  simp only [MailService.getLabel, Call.run_bind, record_run (.getLabel id) h, findLabel,
    Call.run_get, logged]
  cases s.labels.get? id <;> rfl

theorem getMessage_run (id : String) (h : s.planned.get? .getMessage = none) :
    (MailService.getMessage (σ := Store) id).run s =
      (s.lookUp id, s.logged (.getMessage id)) := by
  simp only [MailService.getMessage, Call.run_bind, record_run (.getMessage id) h, findMessage_run]
  rfl

theorem getMessages_run (ids : List String) (h : s.planned.get? .getMessages = none) :
    (MailService.getMessages (σ := Store) ids).run s =
      (ids.mapM s.lookUp, s.logged (.getMessages ids)) := by
  simp only [MailService.getMessages, Call.run_bind, record_run (.getMessages ids) h,
    mapM_findMessage_run]
  rfl

theorem modifyMessage_run (id : String) (c : LabelChange)
    (h : s.planned.get? .modifyMessage = none) (hthere : s.messages.has id = true) :
    (MailService.modifyMessage (σ := Store) id c).run s =
      (.ok (), (s.logged (.modifyMessage id c)).changeLabels c id) := by
  obtain ⟨m, hm⟩ := Option.isSome_iff_exists.mp hthere
  have hfound : (s.logged (.modifyMessage id c)).lookUp id =
      .ok { m with labelIds := some (m.labelIds.getD []) } := by
    simp only [lookUp, logged, hm]
  simp only [MailService.modifyMessage, Call.run_bind, record_run (.modifyMessage id c) h,
    findMessage_run, hfound, Call.run_modify]

theorem modifyMessages_run (ids : List String) (c : LabelChange)
    (h : s.planned.get? .modifyMessages = none) :
    (MailService.modifyMessages (σ := Store) ids c).run s =
      (.ok (), ids.foldl (changeLabels · c) (s.logged (.modifyMessages ids c))) := by
  simp only [MailService.modifyMessages, Call.run_bind, record_run (.modifyMessages ids c) h,
    Call.run_modify]

theorem deleteMessage_run (id : String) (h : s.planned.get? .deleteMessage = none) :
    (MailService.deleteMessage (σ := Store) id).run s =
      (.ok (), (s.logged (.deleteMessage id)).dropMessage id) := by
  simp only [MailService.deleteMessage, Call.run_bind, record_run (.deleteMessage id) h,
    Call.run_modify]

theorem deleteMessages_run (ids : List String) (h : s.planned.get? .deleteMessages = none) :
    (MailService.deleteMessages (σ := Store) ids).run s =
      (.ok (), ids.foldl dropMessage (s.logged (.deleteMessages ids))) := by
  simp only [MailService.deleteMessages, Call.run_bind, record_run (.deleteMessages ids) h,
    Call.run_modify]

end Mailroom.Remote.Store
