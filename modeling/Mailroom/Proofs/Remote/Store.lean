import Mailroom.Proofs.Data.Table
import Mailroom.Proofs.Remote.Call
import Mailroom.Remote.Store

/-! The store as others rely on it. A request that only reads keeps all labels and messages; one
that changes labels changes them in the messages it names and nothing else. Every label and every
message is kept under its own id. -/

namespace Mailroom.Remote

namespace LabelChange

variable {c : LabelChange} {ids done : List String} {id : String}

theorem collect (ids done : List String) (hdone : done.Nodup) :
    let all := ids.foldl (fun done id => if done.contains id then done else done ++ [id]) done
    all.Nodup ∧ ∀ id, id ∈ all ↔ id ∈ done ∨ id ∈ ids := by
  induction ids generalizing done with
  | nil => simpa using hdone
  | cons first ids ih =>
    simp only [List.foldl_cons]
    by_cases hfirst : first ∈ done
    · obtain ⟨hnodup, hmem⟩ := ih done hdone
      rw [if_pos (List.contains_iff_mem.mpr hfirst)]
      refine ⟨hnodup, fun id => (hmem id).trans ?_⟩
      rw [List.mem_cons]
      constructor
      · exact fun h => h.imp_right .inr
      · rintro (h | rfl | h)
        · exact .inl h
        · exact .inl hfirst
        · exact .inr h
    · rw [if_neg (mt List.contains_iff_mem.mp hfirst)]
      obtain ⟨hnodup, hmem⟩ := ih (done ++ [first]) (by
        simpa [List.nodup_append] using ⟨hdone, fun id hid heq => hfirst (heq ▸ hid)⟩)
      refine ⟨hnodup, fun id => (hmem id).trans ?_⟩
      rw [List.mem_append, List.mem_singleton, List.mem_cons, or_assoc]

theorem nodup_apply (c : LabelChange) (ids : List String) : (c.apply ids).Nodup :=
  (collect _ [] List.nodup_nil).1.filter _

/-- After a change a message has the labels it had and the new ones, without the removed ones. -/
theorem mem_apply : id ∈ c.apply ids ↔
    (id ∈ ids ∨ id ∈ c.add.getD []) ∧ id ∉ c.remove.getD [] := by
  rw [apply, List.mem_filter, (collect _ [] List.nodup_nil).2, List.mem_append]
  simp

end LabelChange

namespace Store

variable {s t : Store} {c : LabelChange} {id : String}

/-- The labels of a message, none if the message is not there. -/
def labelIds (s : Store) (id : String) : List String :=
  ((s.messages.get? id).bind (·.labelIds)).getD []

/-- Every label and every message is kept under its own id, and no planned failure is one of
reading a message. -/
structure Sound (s : Store) : Prop where
  labels : ∀ id label, s.labels.get? id = some label → label.id = id
  messages : ∀ id m, s.messages.get? id = some m → m.id = some id
  planned : ∀ method failure, s.planned.get? method = some failure → failure.kind? ≠ some .parse

theorem initial_sound : initial.Sound := by
  have hlabels : ∀ entry ∈ initial.labels.entries, entry.2.id = entry.1 := by decide +kernel
  exact ⟨fun id label h => hlabels _ (Table.mem_of_get? h), by rintro _ _ ⟨⟩, by rintro _ _ ⟨⟩⟩

theorem seedMessage_sound (hs : s.Sound) (m : Message.Resource) : (s.seedMessage m).Sound := by
  unfold seedMessage
  cases hown : LabelBody.chosen m.id with
  | none => exact hs
  | some own =>
    refine ⟨hs.labels, fun id other hother => ?_, hs.planned⟩
    simp only [Table.get?_put] at hother
    split at hother
    · obtain rfl := Option.some.inj hother
      subst id
      exact (Option.filter_eq_some_iff.mp hown).1
    · exact hs.messages id other hother

theorem labelIds_seedMessage (s : Store) (m : Message.Resource) {own : String}
    (hown : LabelBody.chosen m.id = some own) (id : String) : (s.seedMessage m).labelIds id =
      if id = own then m.labelIds.getD [] else s.labelIds id := by
  simp only [seedMessage, hown, labelIds, Table.get?_put]
  split <;> rfl

/-! ### Reading -/

/-- What requests that only read do to a store: they are logged, and planned failures are over. -/
structure Reads (s t : Store) : Prop where
  labels : t.labels = s.labels
  messages : t.messages = s.messages
  planned : ∀ method failure, t.planned.get? method = some failure →
    s.planned.get? method = some failure

theorem Reads.refl (s : Store) : Reads s s := ⟨rfl, rfl, fun _ _ => id⟩

theorem Reads.trans {u : Store} (h : Reads s t) (h' : Reads t u) : Reads s u :=
  ⟨h'.labels.trans h.labels, h'.messages.trans h.messages,
    fun method failure hplanned => h.planned _ _ (h'.planned method failure hplanned)⟩

theorem Reads.sound (h : Reads s t) (hs : s.Sound) : t.Sound :=
  ⟨h.labels ▸ hs.labels, h.messages ▸ hs.messages,
    fun method failure hplanned => hs.planned _ _ (h.planned method failure hplanned)⟩

theorem Reads.labelIds (h : Reads s t) (id : String) : t.labelIds id = s.labelIds id := by
  rw [Store.labelIds, h.messages]
  rfl

/-! ### Changing labels -/

theorem has_changeLabels (c : LabelChange) (s : Store) (first id : String) :
    (s.changeLabels c first).messages.has id = s.messages.has id := by
  simp only [changeLabels, Table.has, Table.get?_modify]
  split <;> simp

theorem labelIds_changeLabels (c : LabelChange) (s : Store) (first id : String) :
    (s.changeLabels c first).labelIds id =
      if id = first ∧ s.messages.has id = true then c.apply (s.labelIds id) else s.labelIds id := by
  simp only [labelIds, changeLabels, Table.has, Table.get?_modify]
  by_cases hid : id = first
  · subst hid
    obtain hm | ⟨m, hm⟩ := Option.eq_none_or_eq_some (s.messages.get? id) <;> simp [hm]
  · simp [hid]

theorem changeLabels_sound (hs : s.Sound) (c : LabelChange) (first : String) :
    (s.changeLabels c first).Sound := by
  refine ⟨hs.labels, fun id m hm => ?_, hs.planned⟩
  simp only [changeLabels, Table.get?_modify] at hm
  split at hm
  · obtain ⟨old, hold, rfl⟩ := Option.map_eq_some_iff.mp hm
    exact hs.messages id old hold
  · exact hs.messages id m hm

theorem Reads.changeLabels (h : Reads s t) (c : LabelChange) (first : String) :
    Reads (s.changeLabels c first) (t.changeLabels c first) :=
  ⟨h.labels, by simp only [Store.changeLabels, h.messages], h.planned⟩

/-- The store with the labels of several messages changed. -/
def changeAll (s : Store) (c : LabelChange) (ids : List String) : Store :=
  ids.foldl (Store.changeLabels · c) s

section All

variable (c : LabelChange) (ids : List String)

theorem changeAll_sound (hs : s.Sound) : (s.changeAll c ids).Sound := by
  induction ids generalizing s with
  | nil => exact hs
  | cons first ids ih => exact ih (changeLabels_sound hs c first)

theorem Reads.changeAll (h : Reads s t) : Reads (s.changeAll c ids) (t.changeAll c ids) := by
  induction ids generalizing s t with
  | nil => exact h
  | cons first ids ih => exact ih (h.changeLabels c first)

variable {c ids}

theorem labelIds_changeAll_of_not_mem (h : id ∉ ids) :
    (s.changeAll c ids).labelIds id = s.labelIds id := by
  induction ids generalizing s with
  | nil => rfl
  | cons first ids ih =>
    obtain ⟨hne, hids⟩ := not_or.mp (List.mem_cons.not.mp h)
    rw [changeAll, List.foldl_cons]
    refine (ih hids).trans ?_
    rw [labelIds_changeLabels, if_neg fun h => hne h.1]

theorem labelIds_changeAll_of_not_has (h : s.messages.has id = false) :
    (s.changeAll c ids).labelIds id = s.labelIds id := by
  induction ids generalizing s with
  | nil => rfl
  | cons first ids ih =>
    rw [changeAll, List.foldl_cons]
    refine (ih ((has_changeLabels c s first id).trans h)).trans ?_
    rw [labelIds_changeLabels, if_neg fun hp => by simp [h] at hp]

/-- A message that is changed carries every label once. However often it is changed, it has the
labels it had and the new ones, without the removed ones. -/
theorem labelIds_changeAll_of_mem (h : id ∈ ids) (hhas : s.messages.has id = true) :
    ((s.changeAll c ids).labelIds id).Nodup ∧ ∀ x, x ∈ (s.changeAll c ids).labelIds id ↔
      (x ∈ s.labelIds id ∨ x ∈ c.add.getD []) ∧ x ∉ c.remove.getD [] := by
  induction ids generalizing s with
  | nil => cases h
  | cons first ids ih =>
    have hhas' := (has_changeLabels c s first id).trans hhas
    have hfirst := labelIds_changeLabels c s first id
    by_cases hrest : id ∈ ids
    · obtain ⟨hnodup, hmem⟩ := ih hrest hhas'
      refine ⟨hnodup, fun x => (hmem x).trans ?_⟩
      rw [hfirst]
      split
      · rw [LabelChange.mem_apply]
        tauto
      · exact Iff.rfl
    · obtain rfl : id = first := (List.mem_cons.mp h).resolve_right hrest
      rw [changeAll, List.foldl_cons, ← changeAll, labelIds_changeAll_of_not_mem hrest, hfirst,
        if_pos ⟨rfl, hhas⟩]
      exact ⟨LabelChange.nodup_apply c _, fun x => LabelChange.mem_apply⟩

end All

/-! ### Requests -/

/-- A request that failed without effect, and not because a message could not be read. -/
def Refuses (s : Store) (failure : Failure) (t : Store) : Prop :=
  Reads s t ∧ failure.kind? ≠ some .parse

/-- What the store gives for a message. -/
def Gives (s : Store) (id : String) (m : Message.Resource) : Prop :=
  m.id = some id ∧ m.labelIds = some (s.labelIds id)

theorem Reads.gives (h : Reads s t) {m : Message.Resource} (hm : s.Gives id m) : t.Gives id m :=
  ⟨hm.1, by rw [hm.2, h.labelIds]⟩

section Requests

variable (hs : s.Sound)
include hs

theorem record_ends (r : Request) : Call.Ends (record r) s (fun _ => Reads s) (Refuses s) := by
  simp only [Call.Ends, record, Call.run_bind, Call.run_modify, Call.run_get]
  cases hplanned : s.planned.get? r.method with
  | none => exact ⟨rfl, rfl, fun _ _ => id⟩
  | some failure =>
    refine ⟨⟨rfl, rfl, fun method other hother => ?_⟩, hs.planned _ _ hplanned⟩
    replace hother : (s.planned.remove r.method).get? method = some other := hother
    rw [Table.get?_remove] at hother
    split at hother
    · cases hother
    · exact hother

theorem listLabels_ends :
    Call.Ends (MailService.listLabels (σ := Store)) s (fun _ => Reads s) (Refuses s) :=
  .andThen (record_ends hs .listLabels) fun _ _ h => h

theorem getLabel_ends (id : String) : Call.Ends (MailService.getLabel (σ := Store) id) s
    (fun label t => Reads s t ∧ label.id = id) (Refuses s) := by
  refine .andThen (record_ends hs (.getLabel id)) fun _ t h => ?_
  simp only [Call.Ends, findLabel, Call.run_bind, Call.run_get]
  cases hlabel : t.labels.get? id with
  | none => exact ⟨h, by simp [Failure.kind?]⟩
  | some label => exact ⟨h, (h.sound hs).labels id label hlabel⟩

theorem listMessages_ends (q : ListQuery) :
    Call.Ends (MailService.listMessages (σ := Store) q) s (fun _ => Reads s) (Refuses s) :=
  .andThen (record_ends hs (.listMessages q)) fun _ _ h => h

theorem findMessage_ends (h : Reads s t) (id : String) :
    Call.Ends (findMessage id) t (fun m u => Reads s u ∧ s.Gives id m) (Refuses s) := by
  simp only [Call.Ends, findMessage, Call.run_bind, Call.run_get]
  cases hm : t.messages.get? id with
  | none => exact ⟨h, by simp [Failure.kind?]⟩
  | some m =>
    refine ⟨h, (h.sound hs).messages id m hm, ?_⟩
    rw [← h.labelIds, labelIds, hm]
    rfl

theorem getMessage_ends (id : String) : Call.Ends (MailService.getMessage (σ := Store) id) s
    (fun m t => Reads s t ∧ s.Gives id m) (Refuses s) :=
  .andThen (record_ends hs (.getMessage id)) fun _ _ h => findMessage_ends hs h id

theorem getMessages_ends (ids : List String) :
    Call.Ends (MailService.getMessages (σ := Store) ids) s
      (fun ms t => Reads s t ∧ ∀ m ∈ ms, ∃ id ∈ ids, s.Gives id m) (Refuses s) := by
  refine .andThen (record_ends hs (.getMessages ids)) fun _ _ h => ?_
  refine Call.Ends.mapM h fun id hid t ht => ?_
  exact (findMessage_ends hs ht id).imp (fun _ _ ⟨hu, hm⟩ => ⟨hu, id, hid, hm⟩) fun _ _ h => h

theorem modifyMessage_ends (id : String) (c : LabelChange) :
    Call.Ends (MailService.modifyMessage (σ := Store) id c) s
      (fun _ => Reads (s.changeAll c [id])) (Refuses s) := by
  refine .andThen (record_ends hs (.modifyMessage id c)) fun _ _ h => ?_
  refine (findMessage_ends hs h id).andThen fun _ _ ⟨h, _⟩ => ?_
  exact h.changeAll c [id]

theorem trashMessage_ends (id : String) :
    Call.Ends (MailService.trashMessage (σ := Store) id) s
      (fun _ => Reads (s.changeAll ⟨some ["TRASH"], some ["INBOX"]⟩ [id])) (Refuses s) :=
  .andThen (record_ends hs (.trashMessage id)) fun _ _ h => h.changeAll _ [id]

theorem untrashMessage_ends (id : String) :
    Call.Ends (MailService.untrashMessage (σ := Store) id) s
      (fun _ => Reads (s.changeAll ⟨none, some ["TRASH"]⟩ [id])) (Refuses s) :=
  .andThen (record_ends hs (.untrashMessage id)) fun _ _ h => h.changeAll _ [id]

theorem modifyMessages_ends (ids : List String) (c : LabelChange) :
    Call.Ends (MailService.modifyMessages (σ := Store) ids c) s
      (fun _ => Reads (s.changeAll c ids)) (Refuses s) :=
  .andThen (record_ends hs (.modifyMessages ids c)) fun _ _ h => h.changeAll c ids

end Requests

end Store

end Mailroom.Remote
