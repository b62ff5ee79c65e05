import Mailroom.Proofs.Label.Bare
import Mailroom.Proofs.Session.Operation
import Mailroom.Proofs.Session.Refresh

/-! The hierarchy of labels over the operations of a session. The tree, the registry, the marks of
evicted nodes and the count of refreshes change only when a listing of labels is answered to a
refresh, and then they become what the whole listing says. An operation that fails, wherever it
does, has done no part of a refresh. -/

namespace Mailroom.Session

open Label (Directory EntityRef NodeRef)
open Remote (Bench LabelRecord MailService Store)

/-! ### The listings that are answered -/

/-- An outside world with the listings of labels that it answered. -/
structure Heard (σ : Type) where
  outside : σ
  listings : List (List LabelRecord) := []

namespace Heard

variable {σ α : Type}

def within (x : Call σ α) : Call (Heard σ) α := ExceptT.mk fun h =>
  let (a, outside) := x.run h.outside
  (a, { h with outside })

theorem run_within (x : Call σ α) (h : Heard σ) : (within x).run h =
    ((x.run h.outside).1, { h with outside := (x.run h.outside).2 }) := rfl

variable [MailService σ]

instance : MailService (Heard σ) where
  profile := within MailService.profile
  listLabels := do
    let records ← within MailService.listLabels
    modify fun h => { h with listings := h.listings ++ [records] }
    return records
  getLabel id := within (MailService.getLabel id)
  createLabel body := within (MailService.createLabel body)
  updateLabel id body := within (MailService.updateLabel id body)
  deleteLabel id := within (MailService.deleteLabel id)
  listMessages q := within (MailService.listMessages q)
  getMessage id := within (MailService.getMessage id)
  getMessages ids := within (MailService.getMessages ids)
  modifyMessage id change := within (MailService.modifyMessage id change)
  trashMessage id := within (MailService.trashMessage id)
  untrashMessage id := within (MailService.untrashMessage id)
  deleteMessage id := within (MailService.deleteMessage id)
  deleteMessages ids := within (MailService.deleteMessages ids)
  modifyMessages ids change := within (MailService.modifyMessages ids change)

theorem listLabels_run (h : Heard σ) : (MailService.listLabels (σ := Heard σ)).run h =
    match (MailService.listLabels (σ := σ)).run h.outside with
    | (.ok records, outside) => (.ok records, ⟨outside, h.listings ++ [records]⟩)
    | (.error failure, outside) => (.error failure, { h with outside }) := by
  change ((within MailService.listLabels : Call (Heard σ) _) >>= _).run h = _
  rw [Call.run_bind, run_within]
  rcases (MailService.listLabels (σ := σ)).run h.outside with ⟨failure | records, outside⟩ <;> rfl

instance [Clock σ] : Clock (Heard σ) where
  now h :=
    let (t, outside) := (Clock.now : StateM σ Rat) h.outside
    (t, { h with outside })
  sleep d h :=
    let (_, outside) := (Clock.sleep d : StateM σ Unit) h.outside
    ((), { h with outside })

end Heard

/-- A directory reconciled with a listing. -/
def reconciled (d : Directory) (records : List LabelRecord) : Directory := (refreshed d records).2

theorem bare_reconciled (d : Directory) (records : List LabelRecord) :
    (reconciled d records).bare = reconciled d.bare records := by
  simp only [reconciled, refreshed, Directory.bare_rebuild]
  rfl

theorem generation_foldl_reconciled (listings : List (List LabelRecord)) (d : Directory) :
    (listings.foldl reconciled d).generation = d.generation + listings.length := by
  induction listings generalizing d with
  | nil => rfl
  | cons records listings ih =>
    rw [List.foldl_cons, ih, List.length_cons]
    change d.generation + 1 + _ = _
    omega

/-! ### Reconciling with what is answered -/

section Heeding

variable {σ α β : Type}

/-- A computation that changes the bare directory only by reconciling it with the listings that it
is answered, whether it fails or not. -/
def Heeds (x : Op (Heard σ) α) : Prop :=
  ∀ s, ∃ heard, (x.run s).2.outside.listings = s.outside.listings ++ heard ∧
    (x.run s).2.directory.bare = heard.foldl reconciled s.directory.bare

namespace Heeds

/-- A computation that is answered no listing. -/
theorem of_quiet {x : Op (Heard σ) α}
    (h : ∀ s, (x.run s).2.outside.listings = s.outside.listings ∧
      (x.run s).2.directory.bare = s.directory.bare) : Heeds x := by
  intro s
  obtain ⟨hlistings, hbare⟩ := h s
  exact ⟨[], by rw [hlistings, List.append_nil], hbare⟩

theorem bind {x : Op (Heard σ) α} {f : α → Op (Heard σ) β} (hx : Heeds x)
    (hf : ∀ a, Heeds (f a)) : Heeds (x >>= f) := by
  intro s
  obtain ⟨heard, hlistings, hbare⟩ := hx s
  rw [Call.run_bind]
  rcases hrun : x.run s with ⟨failure | a, t⟩ <;> rw [hrun] at hlistings hbare
  · exact ⟨heard, hlistings, hbare⟩
  · obtain ⟨more, hmore, hafter⟩ := hf a t
    refine ⟨heard ++ more, ?_, ?_⟩
    · rw [hmore, hlistings, List.append_assoc]
    · rw [hafter, hbare, List.foldl_append]

variable [MailService σ]

theorem request {x : Call (Heard σ) α} (h : Asks x) : Heeds (onOutside x) := by
  cases h <;> exact of_quiet fun _ => ⟨rfl, rfl⟩

theorem refresh : Heeds (refresh (σ := Heard σ)) := by
  intro s
  rw [refresh_run, Heard.listLabels_run]
  rcases (MailService.listLabels (σ := σ)).run s.outside.outside with ⟨failure | records, outside⟩
  · exact ⟨[], (List.append_nil _).symm, rfl⟩
  · exact ⟨[records], rfl, bare_reconciled s.directory records⟩

theorem load (r : NodeRef) : Heeds (load (σ := Heard σ) r) := by
  refine of_quiet fun s => ?_
  have hget : (MailService.getLabel (σ := Heard σ) (s.directory.node r).id).run s.outside = _ :=
    Heard.run_within _ _
  rw [load_run, hget]
  rcases (MailService.getLabel (σ := σ) (s.directory.node r).id).run s.outside.outside with
    ⟨failure | record, outside⟩ <;> exact ⟨rfl, rfl⟩

/-- Loading a label keeps it beside its node, which does not show. -/
theorem entity (r : NodeRef) : Heeds (entity (σ := Heard σ) r) := by
  intro s
  rw [entity_run]
  rcases s.directory.standing r with failure | (e | generation)
  · exact ⟨[], (List.append_nil _).symm, rfl⟩
  · exact ⟨[], (List.append_nil _).symm, rfl⟩
  · have hload := load r s
    simp only []
    rcases hrun : (Session.load r).run s with ⟨failure | e, t⟩ <;> rw [hrun] at hload
    · exact hload
    · obtain ⟨heard, hlistings, hbare⟩ := hload
      exact ⟨heard, hlistings, (t.directory.bare_keep r e generation).trans hbare⟩

theorem reload (e : EntityRef) : Heeds (reload (σ := Heard σ) e) := by
  refine bind (of_quiet fun _ => ⟨rfl, rfl⟩) fun s =>
    bind (of_quiet fun _ => ⟨rfl, rfl⟩) fun _ => ?_
  exact of_quiet fun _ => ⟨rfl, rfl⟩

theorem parts [Clock σ] : Parts (σ := Heard σ) Heeds where
  state hstate hy s := by
    rw [hstate s]
    exact hy s
  pure _ := of_quiet fun _ => ⟨rfl, rfl⟩
  get := of_quiet fun _ => ⟨rfl, rfl⟩
  bind := bind
  request := request
  refresh := refresh
  entity := entity
  invalidate r := of_quiet fun s => ⟨rfl, s.directory.bare_modifyNode_cached r none⟩
  reload := reload
  now := of_quiet fun _ => ⟨rfl, rfl⟩
  sleep _ := of_quiet fun _ => ⟨rfl, rfl⟩

end Heeds

end Heeding

/-! ### Runs of operations -/

section Runs

variable {σ : Type} [MailService σ] [Clock σ]

/-- A recursive deletion reconciles with what its refresh is answered, and not with the listing
before, by which it finds the labels below. -/
theorem deleteLabel_heeds (e : EntityRef) (s : Session (Heard σ)) :
    ∃ heard, ((deleteLabel e true).run s).2.outside.listings = s.outside.listings ++ heard ∧
      ((deleteLabel e true).run s).2.directory.bare =
        (heard.drop 1).foldl reconciled s.directory.bare := by
  have hdelete : (MailService.deleteLabel (σ := Heard σ) (s.entityId e)).run s.outside = _ :=
    Heard.run_within _ _
  rw [deleteLabel, Call.run_bind, Call.run_get]
  dsimp only
  rw [Call.run_bind, run_onOutside, hdelete]
  rcases (MailService.deleteLabel (σ := σ) (s.entityId e)).run s.outside.outside with
    ⟨failure | _, o⟩
  · exact ⟨[], (List.append_nil _).symm, rfl⟩
  · dsimp only
    rw [if_pos rfl, Call.run_bind, run_onOutside, Heard.listLabels_run]
    dsimp only
    rcases (MailService.listLabels (σ := σ)).run o with ⟨failure | records, o'⟩
    · exact ⟨[], (List.append_nil _).symm, rfl⟩
    · obtain ⟨more, hlistings, hbare⟩ := Heeds.parts.deleteBelow e records
        { s with outside := ⟨o', s.outside.listings ++ [records]⟩ }
      rw [← List.append_cons] at hlistings
      exact ⟨records :: more, hlistings, hbare⟩

theorem Operation.heeds (o : Operation) (s : Session (Heard σ)) :
    ∃ heard, (o.after s).outside.listings = s.outside.listings ++ heard ∧
      (o.after s).directory.bare = (heard.drop o.searches).foldl reconciled s.directory.bare := by
  cases hsearches : o.searches with
  | zero => exact Heeds.parts.operation o (.inl hsearches) s
  | succ n =>
    cases o with
    | deleteLabel e recursive =>
      cases recursive with
      | false => cases hsearches
      | true =>
        cases hsearches
        exact deleteLabel_heeds e s
    | _ => cases hsearches

/-- The listings that an operation is answered to its refreshes. -/
def Operation.taken (o : Operation) (s : Session (Heard σ)) : List (List LabelRecord) :=
  ((o.after s).outside.listings.drop s.outside.listings.length).drop o.searches

theorem Operation.after_bare (o : Operation) (s : Session (Heard σ)) :
    (o.after s).directory.bare = (o.taken s).foldl reconciled s.directory.bare := by
  obtain ⟨heard, hlistings, hbare⟩ := o.heeds s
  rw [hbare, taken, hlistings, List.drop_left]

/-- The sessions that come of one by operations, whether they fail or not, with the listings that
were answered to refreshes on the way. Between operations the outside world may change. -/
inductive Ran (first : Session (Heard σ)) : List (List LabelRecord) → Session (Heard σ) → Prop
  | start : Ran first [] first
  | outside {taken s} (o : σ) :
      Ran first taken s → Ran first taken { s with outside := { s.outside with outside := o } }
  | step {taken s} (o : Operation) :
      Ran first taken s → Ran first (taken ++ o.taken s) (o.after s)

variable {first t : Session (Heard σ)} {taken : List (List LabelRecord)}

theorem Ran.bare (h : Ran first taken t) :
    t.directory.bare = taken.foldl reconciled first.directory.bare := by
  induction h with
  | start => rfl
  | outside _ _ ih => exact ih
  | step o _ ih => rw [o.after_bare, ih, List.foldl_append]

/-- The hierarchy over any run of operations. It is the one of a new session reconciled, in order,
with the listings that refreshes were answered, and the count of refreshes is their number. So
whatever an operation does next and wherever it fails, it leaves the hierarchy alone or as a
complete refresh makes it. -/
theorem hierarchy_over_operations (hfirst : first.directory = .initial) (h : Ran first taken t) :
    t.directory.bare = taken.foldl reconciled .initial ∧
    t.directory.generation = taken.length ∧
    ∀ o : Operation,
      (o.taken t = [] ∧ (o.after t).directory.bare = t.directory.bare) ∨
      ∃ before records, o.taken t = before ++ [records] ∧ (o.after t).directory.bare =
        reconciled (before.foldl reconciled t.directory.bare) records := by
  have hbare : t.directory.bare = taken.foldl reconciled .initial := by
    rw [h.bare, hfirst, Directory.bare_initial]
  refine ⟨hbare, ?_, fun o => ?_⟩
  · have hcount := generation_foldl_reconciled taken .initial
    rw [← hbare] at hcount
    exact hcount.trans (Nat.zero_add _)
  · have hafter := o.after_bare t
    rcases List.eq_nil_or_concat (o.taken t) with hnone | ⟨before, records, hsome⟩
    · rw [hnone] at hafter
      exact .inl ⟨hnone, hafter⟩
    · rw [List.concat_eq_append] at hsome
      rw [hsome, List.foldl_concat] at hafter
      exact .inr ⟨before, records, hsome, hafter⟩

end Runs

/-- A label is listed, loaded and deleted with all below it, which is answered two listings and one
refresh. Then a label is made while the next listing fails: the operation fails with its label made,
and the hierarchy is still that of the two refreshes before. -/
theorem hierarchy_over_operations_unlisted :
    let store : Store := (Store.initial.seedLabel "Work" (some "Label_1")).2
    let first : Session (Heard Bench) := { outside := { outside := { store } } }
    let make : Operation := .createLabel "Play" {}
    ∃ taken t, Ran first taken t ∧ t.outside.listings.length = 3 ∧ taken.length = 2 ∧
      (make.op.run t).1.toOption = none ∧
      (make.after t).outside.outside.store.labels.has "Label_1" = true ∧
      t.directory.bare = taken.foldl reconciled .initial ∧ t.directory.generation = 2 ∧
      (make.after t).directory.bare = t.directory.bare := by
  intro store first make
  have hlisted := (.start : Ran first [] first).step .refresh
  have hloaded := hlisted.step (.entity ⟨14⟩)
  have hdeleted := hloaded.step (.deleteLabel ⟨0⟩ true)
  have hrun := hdeleted.outside { store := { Store.initial with
    planned := ⟨[(.listLabels, .invalidTime)]⟩ } }
  obtain ⟨hbare, hcount, hnext⟩ := hierarchy_over_operations rfl hrun
  have hlength : List.length _ = 2 := hcount.symm.trans (by decide +kernel)
  refine ⟨_, _, hrun, by decide +kernel, hlength, ?_, by decide +kernel, hbare,
    hcount.trans hlength, ?_⟩
  · exact Option.isNone_iff_eq_none.mp (by decide +kernel)
  · obtain ⟨-, hafter⟩ | ⟨before, records, htaken, -⟩ := hnext make
    · exact hafter
    · exact absurd (htaken.symm.trans (by decide +kernel)) (by simp : before ++ [records] ≠ [])

end Mailroom.Session
