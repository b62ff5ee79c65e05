import Mailroom.Proofs.Remote.Labels

/-! A store that cannot always be reached. Each request to come may meet a failure before the store
looks at it, at any place in a run and whatever the request is; it then does nothing. Listing and
deleting labels is followed here request by request: those before the first failure have taken away
the labels they name, and nothing else has happened. -/

namespace Mailroom.Remote

/-- A store, and for each request to come the failure that it meets on the way, if any. -/
structure Unsteady where
  store : Store
  schedule : List (Option Failure) := []

namespace Unsteady

variable {α : Type}

/-- A request on its way to the store. -/
def reach (r : Request) (x : Call Store α) : Call Unsteady α := ExceptT.mk fun u =>
  match u.schedule.head?.join with
  | some failure => (.error failure, ⟨u.store.logged r, u.schedule.tail⟩)
  | none =>
    let (a, store) := x.run u.store
    (a, ⟨store, u.schedule.tail⟩)

instance : MailService Unsteady where
  profile := reach .profile MailService.profile
  listLabels := reach .listLabels MailService.listLabels
  getLabel id := reach (.getLabel id) (MailService.getLabel id)
  createLabel body := reach (.createLabel body) (MailService.createLabel body)
  updateLabel id body := reach (.updateLabel id body) (MailService.updateLabel id body)
  deleteLabel id := reach (.deleteLabel id) (MailService.deleteLabel id)
  listMessages q := reach (.listMessages q) (MailService.listMessages q)
  getMessage id := reach (.getMessage id) (MailService.getMessage id)
  getMessages ids := reach (.getMessages ids) (MailService.getMessages ids)
  modifyMessage id change := reach (.modifyMessage id change) (MailService.modifyMessage id change)
  trashMessage id := reach (.trashMessage id) (MailService.trashMessage id)
  untrashMessage id := reach (.untrashMessage id) (MailService.untrashMessage id)
  deleteMessage id := reach (.deleteMessage id) (MailService.deleteMessage id)
  deleteMessages ids := reach (.deleteMessages ids) (MailService.deleteMessages ids)
  modifyMessages ids change :=
    reach (.modifyMessages ids change) (MailService.modifyMessages ids change)

/-- The failure that awaits a request when so many others are answered before it: one on the way, or
else the one that is planned for its method. -/
def fault? (u : Unsteady) (answered : Nat) (r : Request) : Option Failure :=
  u.schedule[answered]?.join.or (u.store.planned.get? r.method)

/-! ### Requests in a row -/

/-- The label that a request deletes. -/
def deleted? : Request → Option String
  | .deleteLabel id => some id
  | _ => none

/-- No failure awaits any of some requests. -/
def Clear (u : Unsteady) (rs : List Request) : Prop := ∀ i r, rs[i]? = some r → u.fault? i r = none

/-- Listings and deletions of labels that were all answered, one after the other. -/
structure Answered (u : Unsteady) (rs : List Request) (v : Unsteady) : Prop where
  clear : u.Clear rs
  calls : v.store.calls = u.store.calls ++ rs
  labels : v.store.labels = Store.without u.store.labels (rs.filterMap deleted?)
  later : ∀ i r, v.fault? i r = u.fault? (rs.length + i) r

/-- A request that failed and did nothing. -/
structure Refused (u : Unsteady) (r : Request) (failure : Failure) (v : Unsteady) : Prop where
  fault : u.fault? 0 r = some failure
  calls : v.store.calls = u.store.calls ++ [r]
  labels : v.store.labels = u.store.labels

/-- Of some requests one failed, and those behind it were not made. -/
inductive Broken (u : Unsteady) (rs : List Request) (failure : Failure) (v : Unsteady) : Prop
  | at (before : List Request) (r : Request) (after : List Request)
    (requests : rs = before ++ r :: after)
    (clear : u.Clear before)
    (fault : u.fault? before.length r = some failure)
    (calls : v.store.calls = u.store.calls ++ (before ++ [r]))
    (labels : v.store.labels = Store.without u.store.labels (before.filterMap deleted?))

variable {u v w : Unsteady} {rs : List Request} {r : Request} {failure : Failure}

theorem Answered.nil (u : Unsteady) : Answered u [] u :=
  ⟨by simp [Clear], by simp, by simp [Store.without_nil], by simp⟩

theorem Answered.concat (h : Answered u rs v) (hr : Answered v [r] w) :
    Answered u (rs ++ [r]) w := by
  constructor
  case clear =>
    intro i q hq
    rw [List.getElem?_append] at hq
    split at hq
    · exact h.clear i q hq
    · have hlater := h.later (i - rs.length) q
      rw [Nat.add_sub_cancel' (by omega)] at hlater
      exact hlater ▸ hr.clear _ q hq
  case calls => rw [hr.calls, h.calls, List.append_assoc]
  case labels => rw [hr.labels, h.labels, Store.without_append, List.filterMap_append]
  case later =>
    intro i q
    rw [hr.later, h.later, List.length_append, Nat.add_assoc]

theorem Answered.broken (h : Answered u rs v) (hr : Refused v r failure w)
    (after : List Request) : Broken u (rs ++ r :: after) failure w := by
  refine .at rs r after rfl h.clear ?_ ?_ ?_
  · exact (h.later 0 r).symm.trans hr.fault
  · rw [hr.calls, h.calls, List.append_assoc]
  · rw [hr.labels, h.labels]

/-! ### One request -/

/-- A request on its way: a failure meets it, or the store answers it as it would. -/
theorem reach_ends {x : Call Store α} {answer : α} {store : Store}
    (hplanned : ∀ failure, u.store.planned.get? r.method = some failure →
      x.run u.store = (.error failure, u.store.asked r))
    (hfree : u.store.planned.get? r.method = none → x.run u.store = (.ok answer, store))
    (hcalls : store.calls = u.store.calls ++ [r]) (hkept : store.planned = u.store.planned)
    (hlabels : store.labels = Store.without u.store.labels ([r].filterMap deleted?)) :
    Call.Ends (reach r x) u (fun a v => a = answer ∧ Answered u [r] v) (Refused u r) := by
  have hrun : (reach r x).run u = match u.schedule.head?.join with
      | some failure => (.error failure, ⟨u.store.logged r, u.schedule.tail⟩)
      | none => ((x.run u.store).1, ⟨(x.run u.store).2, u.schedule.tail⟩) := rfl
  have hfault : u.fault? 0 r = u.schedule.head?.join.or (u.store.planned.get? r.method) := by
    rw [fault?, List.head?_eq_getElem?]
  rw [Call.Ends, hrun]
  cases hhead : u.schedule.head?.join with
  | some failure => exact ⟨by rw [hfault, hhead]; rfl, rfl, rfl⟩
  | none =>
    rw [hhead, Option.none_or] at hfault
    cases hmethod : u.store.planned.get? r.method with
    | some failure =>
      simp only [hplanned failure hmethod]
      exact ⟨hfault.trans hmethod, rfl, rfl⟩
    | none =>
      simp only [hfree hmethod, true_and]
      refine ⟨fun i q hq => ?_, hcalls, hlabels, fun i q => ?_⟩
      · obtain ⟨rfl, rfl⟩ : i = 0 ∧ r = q := by
          cases i <;> simp_all
        exact hfault.trans hmethod
      · simp [fault?, hkept, Nat.add_comm]

theorem listLabels_ends (u : Unsteady) : Call.Ends (MailService.listLabels (σ := Unsteady)) u
    (fun records v => records = u.store.labels.values ∧ Answered u [.listLabels] v)
    (Refused u .listLabels) := by
  refine reach_ends (r := .listLabels) (fun failure hfailure => ?_) Store.listLabels_run rfl rfl
    (Store.without_nil _).symm
  rw [Store.listLabels_eq, show u.store.planned.get? .listLabels = some failure from hfailure]

theorem deleteLabel_ends {id : String} (hthere : u.store.labels.has id = true) :
    Call.Ends (MailService.deleteLabel (σ := Unsteady) id) u
      (fun _ v => Answered u [.deleteLabel id] v) (Refused u (.deleteLabel id)) := by
  refine (reach_ends (r := .deleteLabel id) (fun failure hfailure => ?_)
    (fun hfree => Store.deleteLabel_run hfree hthere) rfl rfl
    (Store.without_singleton _ id).symm).impDone fun _ _ => And.right
  simp only [MailService.deleteLabel, Call.run_bind, Store.record_eq, hfailure]

end Unsteady

end Mailroom.Remote
