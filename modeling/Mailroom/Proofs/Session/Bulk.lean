import Mailroom.Proofs.Remote.Answers
import Mailroom.Proofs.Session.Mutation
import Mailroom.Proofs.Session.Scope

/-! Actions on messages in bulk and one by one. An action deletes messages, puts labels on them or
takes labels off them. In bulk it is one request for all messages; one by one it is a request for
each message, which is read again afterwards. Both make the same change to the same messages. -/

namespace Mailroom.Remote.Store

variable {s t : Store} {c : Option LabelChange} {id : String} {ids : List String}

/-- A message changed, or deleted if there is no change. -/
def act (c : Option LabelChange) (s : Store) (id : String) : Store :=
  match c with
  | some c => s.changeLabels c id
  | none => s.dropMessage id

theorem messages_act_congr (h : t.messages = s.messages) :
    (t.act c id).messages = (s.act c id).messages := by
  cases c <;> simp only [act, changeLabels, dropMessage, h]

theorem messages_foldl_act_congr (h : t.messages = s.messages) :
    (ids.foldl (act c) t).messages = (ids.foldl (act c) s).messages := by
  induction ids generalizing s t with
  | nil => exact h
  | cons first ids ih => exact ih (messages_act_congr h)

theorem get?_act_of_ne {first : String} (h : id ≠ first) :
    (s.act c first).messages.get? id = s.messages.get? id := by
  cases c with
  | some c => simp only [act, changeLabels, Table.get?_modify, if_neg h]
  | none => simp only [act, dropMessage, Table.get?_remove, if_neg h]

theorem get?_foldl_act (h : id ∉ ids) :
    (ids.foldl (act c) s).messages.get? id = s.messages.get? id := by
  induction ids generalizing s with
  | nil => rfl
  | cons first ids ih =>
    obtain ⟨hne, hids⟩ := not_or.mp (List.mem_cons.not.mp h)
    exact (ih hids).trans (get?_act_of_ne hne)

/-- Changes delete nothing. -/
theorem has_foldl_act (c : LabelChange) (s : Store) (ids : List String) (id : String) :
    (ids.foldl (act (some c)) s).messages.has id = s.messages.has id := by
  induction ids generalizing s with
  | nil => rfl
  | cons first ids ih => exact (ih _).trans (has_changeLabels c s first id)

theorem act_sound (hs : s.Sound) (c : Option LabelChange) (id : String) : (s.act c id).Sound := by
  cases c with
  | some c => exact changeLabels_sound hs c id
  | none =>
    refine ⟨hs.labels, fun other m hm => ?_, hs.planned⟩
    simp only [act, dropMessage, Table.get?_remove] at hm
    split at hm
    · cases hm
    · exact hs.messages other m hm

/-- No request that changes or deletes messages is planned to fail. -/
def Undisturbed (s : Store) : Prop :=
  ∀ method ∈ [Method.modifyMessage, .deleteMessage, .modifyMessages, .deleteMessages],
    s.planned.get? method = none

instance (s : Store) : Decidable s.Undisturbed := inferInstanceAs (Decidable (∀ _ ∈ _, _))

theorem planned_act (s : Store) (c : Option LabelChange) (id : String) :
    (s.act c id).planned = s.planned := by
  cases c <;> rfl

end Mailroom.Remote.Store

namespace Mailroom

open Label (isCategoryId Directory)
open Remote (Bench LabelChange MailService Method Request Store)

/-- A label that is there and is no category, loaded or as a handle. -/
def Thing.Plain (s : Session Bench) : Thing → Prop
  | entity e => ∃ x, s.entity? e = some x ∧ x.kind ≠ .category
  | proxy r => s.directory.Has r ∧ (s.directory.node r).kind ≠ .category
  | _ => False

namespace Thing.Plain

variable {s t : Session Bench} {thing : Thing}

theorem standsForCategory (h : thing.Plain s) : thing.standsForCategory s = false := by
  cases thing with
  | entity e =>
    obtain ⟨x, hx, hkind⟩ := h
    simpa [Thing.standsForCategory, Session.entityKind, hx] using hkind
  | proxy r => simpa [Thing.standsForCategory] using h.2
  | node | message | data | list => exact h.elim

theorem system (hs : s.Coherent) (l : Label.System) : (Session.systemThing l).Plain s := by
  obtain ⟨_, hstands⟩ := hs.stands
  have hfixed : Directory.system l ∈ Directory.initial.fixed := by
    cases l <;> decide +kernel
  refine ⟨(hstands.based.fixed_tag _ hfixed).1, fun hcategory => ?_⟩
  have hid := (hs.nodes _).kind.mp hcategory
  exact absurd (hid.symm.trans (Session.isCategoryId_system hs l)) (by decide)

/-- Reading leaves the labels that callers hold as they are. -/
theorem reads (h : thing.Plain s) (hs : s.Coherent) (hread : s.Reads t) :
    thing.Plain t ∧ thing.id t = thing.id s := by
  cases thing with
  | entity e =>
    obtain ⟨x, hx, hkind⟩ := h
    have hx' := hread.entities e x hx
    refine ⟨⟨x, hx', hkind⟩, ?_⟩
    rw [Thing.id, Thing.id, Session.entityId_of_entity? hx, Session.entityId_of_entity? hx']
  | proxy r =>
    obtain ⟨hhas, hkind⟩ := h
    obtain ⟨hhas', hid⟩ := hread.nodes r hhas
    refine ⟨⟨hhas', fun hcategory => hkind ?_⟩, hid⟩
    rw [(hread.coherent.nodes r).kind, hid] at hcategory
    exact (hs.nodes r).kind.mpr hcategory
  | node | message | data | list => exact h.elim

end Thing.Plain

namespace Session

/-- What callers do to messages, one by one or in bulk. -/
inductive MessageAction
  | markRead (isRead : Bool)
  | markImportant (isImportant : Bool)
  | markStarred (isStarred : Bool)
  | archive
  | delete
  | addLabels (labels : Thing)
  | removeLabels (labels : Thing)

namespace MessageAction

/-- The action on one message, by a snapshot of it. -/
def op (m : Message) : MessageAction → Op Bench Unit
  | markRead isRead => do let _ ← Session.markRead m isRead
  | markImportant isImportant => do let _ ← Session.markImportant m isImportant
  | markStarred isStarred => do let _ ← Session.markStarred m isStarred
  | archive => do let _ ← Session.archive m
  | delete => deleteMessage m
  | addLabels labels => do let _ ← Session.addLabels m labels
  | removeLabels labels => do let _ ← Session.removeLabels m labels

/-- The action on all messages of a query. -/
def bulk (s : Session Bench) (q : Query) : MessageAction → BulkAction (Session Bench)
  | markRead isRead => bulkMarkRead s q isRead
  | markImportant isImportant => bulkMarkImportant s q isImportant
  | markStarred isStarred => bulkMarkStarred s q isStarred
  | archive => bulkArchive s q
  | delete => bulkDelete q
  | addLabels labels => bulkAdd s q labels
  | removeLabels labels => bulkRemove s q labels

/-- The labels of the caller's own choice. -/
def chosen : MessageAction → List Thing
  | addLabels labels => labels.items
  | removeLabels labels => labels.items
  | _ => []

/-- Whether labels are put on or taken off, and which; neither when messages are deleted. -/
def labelling : MessageAction → Option (Bool × Thing)
  | markRead isRead => some (!isRead, systemThing .unread)
  | markImportant isImportant => some (isImportant, systemThing .important)
  | markStarred isStarred => some (isStarred, systemThing .starred)
  | archive => some (false, systemThing .inbox)
  | delete => none
  | addLabels labels => some (true, labels)
  | removeLabels labels => some (false, labels)

/-- The change that the action makes to each message; none when messages are deleted. -/
def change (s : Session Bench) (a : MessageAction) : Option LabelChange :=
  match a.labelling with
  | some (true, labels) => some { add := some (labels.items.map (·.id s)) }
  | some (false, labels) => some { remove := some (labels.items.map (·.id s)) }
  | none => none

/-- The request for one message. -/
def request (s : Session Bench) (a : MessageAction) (id : String) : Op Bench Unit :=
  match a.change s with
  | some c => onOutside (MailService.modifyMessage id c)
  | none => onOutside (MailService.deleteMessage id)

/-- A message that was changed is read again. -/
def reread (a : MessageAction) (id : String) : Op Bench Unit := do
  if a.labelling.isSome then
    let _ ← Session.message id

/-- The action on some messages, one by one. -/
def each (a : MessageAction) (ms : List Message) (s : Session Bench) : Session Bench :=
  ms.foldl (fun t m => ((a.op m).run t).2) s

variable {made s t : Session Bench} {a : MessageAction} {m : Message} {ms : List Message}

theorem op_eq (a : MessageAction) (m : Message) : a.op m =
    match a.labelling with
    | some (true, labels) => do let _ ← Session.addLabels m labels
    | some (false, labels) => do let _ ← Session.removeLabels m labels
    | none => deleteMessage m := by
  cases a with
  | markRead b | markImportant b | markStarred b => cases b <;> rfl
  | archive | delete | addLabels | removeLabels => rfl

theorem bulk_eq (a : MessageAction) (s : Session Bench) (q : Query) : a.bulk s q =
    bulkAction q fun ids =>
      match a.change s with
      | some c => MailService.modifyMessages ids c
      | none => MailService.deleteMessages ids := by
  cases a with
  | markRead b | markImportant b | markStarred b => cases b <;> rfl
  | archive | delete | addLabels | removeLabels => rfl

/-- What the action on one message relies on: labels that are as they were when the action was made,
and requests that do not fail. -/
structure Ready (a : MessageAction) (made s : Session Bench) : Prop where
  coherent : s.Coherent
  undisturbed : s.outside.store.Undisturbed
  labels : ∀ isAdded labels, a.labelling = some (isAdded, labels) →
    ∀ thing ∈ labels.items, thing.Plain s ∧ thing.id s = thing.id made

theorem Ready.withStore (h : Ready a made s) {store : Store} (hstore : store.Sound)
    (hplanned : store.planned = s.outside.store.planned) : Ready a made (s.withStore store) :=
  ⟨h.coherent.withStore hstore, fun method hmethod => hplanned ▸ h.undisturbed method hmethod,
    h.labels⟩

theorem Ready.reads (h : Ready a made s) (hread : s.Reads t) : Ready a made t := by
  refine ⟨hread.coherent, fun method hmethod => ?_, fun isAdded labels ha thing hthing => ?_⟩
  · cases hplanned : t.outside.store.planned.get? method with
    | none => rfl
    | some failure =>
      cases (h.undisturbed method hmethod).symm.trans (hread.store.planned method failure hplanned)
  · obtain ⟨hplain, hid⟩ := h.labels isAdded labels ha thing hthing
    obtain ⟨hplain', hid'⟩ := hplain.reads h.coherent hread
    exact ⟨hplain', hid'.trans hid⟩

theorem plainIds_of_plain {labels : Thing} (h : ∀ thing ∈ labels.items,
    thing.Plain s ∧ thing.id s = thing.id made) (m : Message) :
    plainIds s m labels = .ok (labels.items.map (·.id made)) := by
  unfold plainIds
  generalize labels.items = things at h
  induction things with
  | nil => rfl
  | cons thing things ih =>
    obtain ⟨⟨hplain, hid⟩, hrest⟩ := List.forall_mem_cons.mp h
    rw [List.mapM_cons, hplain.standsForCategory, ih hrest, hid]
    rfl

/-- One by one, an action is its request and reading the message again. -/
theorem op_run (h : Ready a made s) (m : Message) :
    (a.op m).run s = (do a.request made m.id; a.reread m.id : Op Bench Unit).run s := by
  have hlabels := h.labels
  rw [op_eq]
  unfold request change reread
  rcases hl : a.labelling with _ | ⟨_ | _, labels⟩
  case none => exact congrArg (fun x : Op Bench Unit => x.run s) (bind_pure _).symm
  case some.false =>
    have hids := plainIds_of_plain (hlabels _ _ hl) m
    have hrun : (Session.removeLabels m labels).run s =
        (Session.change m { remove := some (labels.items.map (·.id made)) }).run s := by
      simp only [Session.removeLabels, Call.run_bind, Call.run_get, hids, ofExcept, Call.run_pure]
    refine (Call.run_bind_congr hrun _).trans ?_
    rw [Session.change, bind_assoc]
    rfl
  case some.true =>
    have hids := plainIds_of_plain (hlabels _ _ hl) m
    have hrun : (Session.addLabels m labels).run s =
        (Session.change m { add := some (labels.items.map (·.id made)) }).run s := by
      simp only [Session.addLabels, Call.run_bind, Call.run_get, hids, ofExcept, Call.run_pure]
    refine (Call.run_bind_congr hrun _).trans ?_
    rw [Session.change, bind_assoc]
    rfl

/-- The request for one message succeeds, and does to it what the action says. -/
theorem request_run (h : Ready a made s) {id : String}
    (hthere : a.change made ≠ none → s.outside.store.messages.has id = true) :
    ∃ r, (a.request made id).run s =
      (.ok (), s.withStore ((s.outside.store.logged r).act (a.change made) id)) := by
  unfold request
  cases hc : a.change made with
  | some c =>
    refine ⟨.modifyMessage id c, (run_onStore _ s).trans ?_⟩
    rw [Store.modifyMessage_run id c (h.undisturbed _ (by decide)) (hthere (by simp [hc]))]
    rfl
  | none =>
    refine ⟨.deleteMessage id, (run_onStore _ s).trans ?_⟩
    rw [Store.deleteMessage_run id (h.undisturbed _ (by decide))]
    rfl

/-- Reading a message again leaves everything ready, even if it fails. -/
theorem reread_reads (hs : s.Coherent) (a : MessageAction) (id : String) :
    s.Reads ((a.reread id).run s).2 := by
  have hmessage : s.Reads ((Session.message id).run s).2 :=
    ((message_ends hs id).imp (fun _ _ h => h.1) fun _ _ h => h.1).state
  unfold reread
  split
  · rw [Call.run_bind]
    rcases hrun : (Session.message id).run s with ⟨failure | m, t⟩ <;> rw [hrun] at hmessage
    · exact hmessage
    · exact hmessage
  · exact hs.reads

/-- One step: one message is changed, and all is ready for the next one. -/
theorem op_step (h : Ready a made s) (m : Message)
    (hthere : a.change made ≠ none → s.outside.store.messages.has m.id = true) :
    ((a.request made m.id).run s).1 = .ok () ∧ Ready a made ((a.op m).run s).2 ∧
      ((a.op m).run s).2.outside.store.messages =
        (s.outside.store.act (a.change made) m.id).messages := by
  obtain ⟨r, hrequest⟩ := request_run h hthere
  let store := (s.outside.store.logged r).act (a.change made) m.id
  have hlogged : (s.outside.store.logged r).Sound :=
    ⟨h.coherent.store.labels, h.coherent.store.messages, h.coherent.store.planned⟩
  have hready : Ready a made (s.withStore store) :=
    h.withStore (Store.act_sound hlogged _ _) (Store.planned_act _ _ _)
  have hreads : (s.withStore store).Reads ((a.op m).run s).2 := by
    rw [op_run h, Call.run_bind, hrequest]
    exact reread_reads hready.coherent a m.id
  exact ⟨by rw [hrequest], hready.reads hreads,
    hreads.store.messages.trans (Store.messages_act_congr rfl)⟩

/-- The whole run: after all messages, the store is as after the changes one after the other. -/
theorem each_run (h : Ready a made s)
    (hthere : a.change made ≠ none → ∀ m ∈ ms, s.outside.store.messages.has m.id = true) :
    Ready a made (a.each ms s) ∧ (a.each ms s).outside.store.messages =
      ((ms.map (·.id)).foldl (Store.act (a.change made)) s.outside.store).messages := by
  induction ms generalizing s with
  | nil => exact ⟨h, rfl⟩
  | cons m ms ih =>
    obtain ⟨-, hready, hmessages⟩ := op_step h m fun hc => hthere hc m List.mem_cons_self
    have hrest : a.change made ≠ none → ∀ other ∈ ms,
        ((a.op m).run s).2.outside.store.messages.has other.id = true := by
      -- A change of labels removes no message; a deletion asks for none.
      intro hc other hother
      obtain ⟨c, hc'⟩ := Option.ne_none_iff_exists'.mp hc
      rw [hmessages, hc']
      exact (Store.has_changeLabels c _ _ _).trans (hthere hc other (List.mem_cons_of_mem _ hother))
    obtain ⟨hlast, hstore⟩ := ih hready hrest
    exact ⟨hlast, hstore.trans (Store.messages_foldl_act_congr hmessages)⟩

/-- In bulk, an action is one request, or none if there are no messages. -/
theorem perform_run (h : s.outside.store.Undisturbed) (a : MessageAction) (made : Session Bench)
    (q : Query) (ids : List String) :
    ∃ store, ((a.bulk made q).perform ids).run s = (.ok (), s.withStore store) ∧
      store.messages = (ids.foldl (Store.act (a.change made)) s.outside.store).messages := by
  rw [bulk_eq]
  unfold bulkAction
  dsimp only
  split
  case isTrue hempty =>
    obtain rfl := List.isEmpty_iff.mp hempty
    exact ⟨s.outside.store, rfl, rfl⟩
  case isFalse =>
    cases a.change made with
    | some c =>
      have hrun := run_onStore (MailService.modifyMessages ids c) s
      rw [Store.modifyMessages_run ids c (h _ (by decide))] at hrun
      exact ⟨_, hrun, Store.messages_foldl_act_congr (c := some c) rfl⟩
    | none =>
      have hrun := run_onStore (MailService.deleteMessages ids) s
      rw [Store.deleteMessages_run ids (h _ (by decide))] at hrun
      exact ⟨_, hrun, Store.messages_foldl_act_congr (c := none) rfl⟩

theorem ready (hmade : made.Coherent) (hreads : made.Reads s)
    (hfree : s.outside.store.Undisturbed) (hchosen : ∀ thing ∈ a.chosen, thing.Plain made) :
    Ready a made s := by
  refine ⟨hreads.coherent, hfree, fun isAdded labels ha thing hthing => ?_⟩
  refine Thing.Plain.reads ?_ hmade hreads
  have hsystem : ∀ l : Label.System, labels = systemThing l → thing.Plain made := by
    rintro l rfl
    obtain rfl : thing = systemThing l := List.mem_singleton.mp hthing
    exact Thing.Plain.system hmade l
  cases a with
  | markRead | markImportant | markStarred | archive =>
    cases ha
    exact hsystem _ rfl
  | delete => cases ha
  | addLabels | removeLabels =>
    cases ha
    exact hchosen thing hthing

end MessageAction

open MessageAction in
/-- Actions in bulk and one by one. The bulk action on captured messages that are there succeeds
with their number, and leaves the messages of the store as the action on each of them does, one
after the other; messages that were not captured stay as they are. One by one, the request for each
message succeeds, and after it the message is only read again. -/
theorem bulk_as_each {made s : Session Bench} (hmade : made.Coherent) (hreads : made.Reads s)
    (hfree : s.outside.store.Undisturbed) {a : MessageAction}
    (hchosen : ∀ thing ∈ a.chosen, thing.Plain made) {ms : List Message} {ids : List String}
    (hms : ms.map (·.id) = ids)
    (hthere : ∀ id ∈ ids, s.outside.store.messages.has id = true) (q : Query) :
    ∃ t : Session Bench,
      (Scoped.exit (a.bulk made q)).run ⟨⟨some ids, true⟩, s⟩ =
        (.ok ids.length, ⟨⟨some ids, false⟩, t⟩) ∧
      (∀ scope u, (messageIds q).run u = (.ok ids, s) →
        (Scoped.execute (a.bulk made q)).run ⟨scope, u⟩ =
          (.ok ids.length, ⟨{ scope with captured := some ids }, t⟩)) ∧
      t.outside.store.messages = (a.each ms s).outside.store.messages ∧
      (∀ id ∉ ids, t.outside.store.messages.get? id = s.outside.store.messages.get? id) ∧
      ∀ before m after, ms = before ++ m :: after →
        ((a.request made m.id).run (a.each before s)).1 = .ok () ∧
        (a.op m).run (a.each before s) =
          (do a.request made m.id; a.reread m.id : Op Bench Unit).run (a.each before s) := by
  have hready := ready hmade hreads hfree hchosen
  have hmessages : ∀ m ∈ ms, s.outside.store.messages.has m.id = true := fun m hm =>
    hthere m.id (hms ▸ List.mem_map_of_mem hm)
  obtain ⟨store, hperform, hstore⟩ := perform_run hfree a made q ids
  refine ⟨s.withStore store, ?_, fun scope u hlist => ?_, ?_, fun id hid => ?_, ?_⟩
  · simp only [Scoped.exit_run, if_true, Scope.ids, Option.getD_some, hperform]
    rfl
  · have hlisting : (a.bulk made q).listing = messageIds q := by
      rw [bulk_eq]
      rfl
    simp only [Scoped.execute_run, hlisting, hlist, hperform]
    rfl
  · rw [(each_run hready fun _ => hmessages).2, hms]
    exact hstore
  · exact (congrArg (·.get? id) hstore).trans (Store.get?_foldl_act hid)
  · rintro before m after rfl
    have hbefore : ∀ other ∈ before, s.outside.store.messages.has other.id = true :=
      fun other hother => hmessages other (List.mem_append_left _ hother)
    obtain ⟨hready, hsofar⟩ := each_run hready fun _ => hbefore
    refine ⟨(op_step hready m fun hc => ?_).1, op_run hready m⟩
    obtain ⟨c, hc⟩ := Option.ne_none_iff_exists'.mp hc
    rw [hsofar, hc, Store.has_foldl_act]
    exact hmessages m (List.mem_append_right _ List.mem_cons_self)

/-- A star is put twice on two messages, one of which was captured twice. -/
theorem bulk_as_each_starred :
    let a : Message.Resource := { id := some "a", labelIds := some ["INBOX"] }
    let b : Message.Resource := { id := some "b", labelIds := some ["STARRED", "UNREAD"] }
    let c : Message.Resource := { id := some "c", labelIds := some ["INBOX"] }
    let store : Store := ((Store.initial.seedMessage a).seedMessage b).seedMessage c
    let s : Session Bench := { outside := { store } }
    let star : MessageAction := .addLabels (.list [systemThing .starred, systemThing .starred])
    let ids := ["b", "a", "b"]
    let snapshot (id : String) : Message := .ofResource { id := some id } [] none
    let t := star.each (ids.map snapshot) s
    s.Coherent ∧ store.Undisturbed ∧ (∀ thing ∈ star.chosen, thing.Plain s) ∧
      ∃ u, (Scoped.exit (star.bulk s (Query.start {}))).run ⟨⟨some ids, true⟩, s⟩ =
          (.ok 3, ⟨⟨some ids, false⟩, u⟩) ∧
        u.outside.store.messages = t.outside.store.messages ∧
        u.outside.store.labelIds "a" = ["INBOX", "STARRED"] ∧
        u.outside.store.labelIds "b" = ["STARRED", "UNREAD"] ∧
        u.outside.store.labelIds "c" = ["INBOX"] := by
  intro a b c store s star ids snapshot t
  have hsound : store.Sound := Store.seedMessage_sound
    (Store.seedMessage_sound (Store.seedMessage_sound Store.initial_sound a) b) c
  have hs : s.Coherent := .fresh rfl rfl hsound
  have hplain : ∀ thing ∈ star.chosen, thing.Plain s := by
    intro thing hthing
    obtain rfl : thing = systemThing .starred := by
      simpa [star, MessageAction.chosen, Thing.items] using hthing
    exact Thing.Plain.system hs .starred
  have hfree : store.Undisturbed := by decide +kernel
  have hms : (ids.map snapshot).map (·.id) = ids := rfl
  have hthere : ∀ id ∈ ids, store.messages.has id = true := by decide +kernel
  obtain ⟨u, hexit, -, hmessages, -⟩ :=
    bulk_as_each hs hs.reads hfree hplain hms hthere (Query.start {})
  rw [show star.each (ids.map snapshot) s = t from rfl] at hmessages
  have hlabels : ∀ id, u.outside.store.labelIds id = t.outside.store.labelIds id := fun id => by
    rw [Store.labelIds, Store.labelIds, hmessages]
  refine ⟨hs, hfree, hplain, u, hexit, hmessages, ?_, ?_, ?_⟩
  · rw [hlabels]
    decide +kernel
  · rw [hlabels]
    decide +kernel
  · rw [hlabels]
    decide +kernel

end Session

end Mailroom
