import Mailroom.Proofs.Session.Bulk
import Mailroom.Proofs.Session.Readable

/-! What the changes of one message do to its labels. A snapshot may be out of date: a change is made
to the labels that the store has for the message, and the new snapshot has what comes of it. Labels
that are added or taken away are so once for all, and no other message is touched. A category is put
in the place of the one that the message has, which leaves it without one if it had the same. -/

namespace Mailroom.Remote

namespace LabelChange

/-- Ids that are collected already, or are sifted out afterwards, add nothing. -/
theorem filter_collect {keep : String → Bool} {ids done : List String}
    (h : ∀ id ∈ ids, id ∈ done ∨ keep id = false) :
    (ids.foldl (fun done id => if done.contains id then done else done ++ [id]) done).filter keep =
      done.filter keep := by
  induction ids generalizing done with
  | nil => rfl
  | cons first ids ih =>
    obtain ⟨hfirst, hrest⟩ := List.forall_mem_cons.mp h
    rw [List.foldl_cons]
    by_cases hmem : first ∈ done
    · rw [if_pos (List.contains_iff_mem.mpr hmem)]
      exact ih hrest
    · rw [if_neg (mt List.contains_iff_mem.mp hmem),
        ih fun id hid => (hrest id hid).imp_left (List.mem_append_left [first]),
        List.filter_append, List.filter_singleton, hfirst.resolve_left hmem, cond_false,
        List.append_nil]

theorem collect_nodup {ids done : List String} (h : (done ++ ids).Nodup) :
    ids.foldl (fun done id => if done.contains id then done else done ++ [id]) done =
      done ++ ids := by
  induction ids generalizing done with
  | nil => rw [List.append_nil, List.foldl_nil]
  | cons first ids ih =>
    have hfirst : first ∉ done := fun hmem =>
      (List.nodup_append.mp h).2.2 first hmem first List.mem_cons_self rfl
    rw [List.foldl_cons, if_neg (mt List.contains_iff_mem.mp hfirst), ih (by simpa using h),
      List.append_assoc]
    rfl

theorem apply_apply (c : LabelChange) (ids : List String) : c.apply (c.apply ids) = c.apply ids := by
  have hnodup : ([] ++ c.apply ids).Nodup := c.nodup_apply ids
  rw [apply, List.foldl_append, collect_nodup hnodup, List.nil_append, filter_collect]
  · rw [List.filter_eq_self]
    intro id hid
    simpa using (mem_apply.mp hid).2
  · intro id hid
    by_cases hremoved : id ∈ c.remove.getD []
    · exact .inr (by simpa using hremoved)
    · exact .inl (mem_apply.mpr ⟨.inr hid, hremoved⟩)

theorem apply_congr {c d : LabelChange} (hadd : c.add.getD [] = d.add.getD [])
    (hremove : c.remove.getD [] = d.remove.getD []) : c.apply = d.apply := by
  funext ids
  rw [apply, apply, hadd, hremove]

end LabelChange

namespace Store

variable {s t : Store}

theorem changeLabels_congr {c d : LabelChange} (h : c.apply = d.apply) :
    s.changeLabels c = s.changeLabels d := by
  funext id
  rw [changeLabels, changeLabels, h]

theorem get?_changeLabels_of_ne (c : LabelChange) (s : Store) {first id : String} (h : id ≠ first) :
    (s.changeLabels c first).messages.get? id = s.messages.get? id := by
  simp only [changeLabels, Table.get?_modify, if_neg h]

theorem trashMessage_run (id : String) (h : s.planned.get? .trashMessage = none) :
    (MailService.trashMessage (σ := Store) id).run s =
      (.ok (), (s.logged (.trashMessage id)).changeLabels ⟨some ["TRASH"], some ["INBOX"]⟩ id) := by
  simp only [MailService.trashMessage, Call.run_bind, record_run (.trashMessage id) h,
    Call.run_modify]

theorem untrashMessage_run (id : String) (h : s.planned.get? .untrashMessage = none) :
    (MailService.untrashMessage (σ := Store) id).run s =
      (.ok (), (s.logged (.untrashMessage id)).changeLabels ⟨none, some ["TRASH"]⟩ id) := by
  simp only [MailService.untrashMessage, Call.run_bind, record_run (.untrashMessage id) h,
    Call.run_modify]

end Store

end Mailroom.Remote

namespace Mailroom.Session

open Label (isCategoryId Directory Entity EntityRef)
open Remote (Bench LabelChange MailService Request Store)

variable {first s t u : Session Bench} {c : LabelChange} {id : String} {m : Message}

/-! ### Snapshots over time -/

/-- The ids of a message's labels and of its category. -/
def idsOf (s : Session Bench) (m : Message) : List String :=
  (m.labels ++ m.category.toList).map s.entityId

/-- A snapshot of a message that the store has; the message may have changed since. -/
structure Holds (s : Session Bench) (m : Message) : Prop where
  stored : s.outside.store.messages.has m.id = true
  loaded : ∀ e, e ∈ m.labels ∨ m.category = some e → ∃ x, s.entity? e = some x

/-- The labels and the category of a snapshot, and all messages but its own, are as they were. -/
structure Spares (s : Session Bench) (m : Message) (t : Session Bench) : Prop where
  labels : m.labels.map t.entityId = m.labels.map s.entityId
  category : m.category.map t.entityId = m.category.map s.entityId
  others : ∀ id, id ≠ m.id →
    t.outside.store.messages.get? id = s.outside.store.messages.get? id

theorem Current.idsOf_eq (h : t.Current m) : t.idsOf m =
    (t.outside.store.labelIds m.id).filter (!isCategoryId ·) ++
      (t.outside.store.labelIds m.id).filter isCategoryId := by
  rw [idsOf, List.map_append, h.1, h.2]

theorem Current.mem_idsOf (h : t.Current m) (id : String) :
    id ∈ t.idsOf m ↔ id ∈ t.outside.store.labelIds m.id := by
  rw [h.idsOf_eq, List.mem_append, List.mem_filter, List.mem_filter]
  cases isCategoryId id <;> simp

theorem Current.single (h : t.Current m) : Single (t.outside.store.labelIds m.id) := by
  have hlength := congrArg List.length h.2
  rw [List.length_map, ← List.countP_eq_length_filter] at hlength
  rw [Single, ← hlength]
  cases m.category <;> simp

/-! ### A change and reading the message again -/

/-- The session with the labels of a message changed. -/
def relabelled (s : Session Bench) (c : LabelChange) (id : String) : Session Bench :=
  s.withStore (s.outside.store.changeLabels c id)

theorem Coherent.relabelled (hs : s.Coherent) (c : LabelChange) (id : String) :
    (s.relabelled c id).Coherent :=
  hs.withStore (Store.changeLabels_sound hs.store c id)

theorem labelIds_of_relabelled (h : (s.relabelled c id).Reads t)
    (hstored : s.outside.store.messages.has id = true) :
    t.outside.store.labelIds id = c.apply (s.outside.store.labelIds id) := by
  rw [h.store.labelIds]
  exact (Store.labelIds_changeLabels c _ _ _).trans (if_pos ⟨rfl, hstored⟩)

theorem Holds.spares (h : s.Holds m) (hentities : ∀ e x, s.entity? e = some x →
      t.entity? e = some x) (hothers : ∀ id, id ≠ m.id →
      t.outside.store.messages.get? id = s.outside.store.messages.get? id) : s.Spares m t := by
  have hsame : ∀ e, e ∈ m.labels ∨ m.category = some e → t.entityId e = s.entityId e := by
    intro e he
    obtain ⟨x, hx⟩ := h.loaded e he
    rw [entityId_of_entity? hx, entityId_of_entity? (hentities e x hx)]
  refine ⟨List.map_congr_left fun e he => hsame e (.inl he), ?_, hothers⟩
  cases hcategory : m.category with
  | none => rfl
  | some e => exact congrArg some (hsame e (.inr hcategory))

theorem Holds.spares_of_reads (h : s.Holds m) (hreads : s.Reads t) : s.Spares m t :=
  h.spares hreads.entities fun _ _ => by rw [hreads.store.messages]

theorem Holds.spares_of_relabelled (h : s.Holds m) (hreads : (s.relabelled c m.id).Reads t) :
    s.Spares m t :=
  h.spares hreads.entities fun _ hid => by
    rw [hreads.store.messages]
    exact Store.get?_changeLabels_of_ne c _ hid

/-- Requests that make a change to a message. -/
inductive Makes (c : LabelChange) (id : String) : Call Store Unit → Prop
  | modify {d : LabelChange} : d.apply = c.apply → Makes c id (MailService.modifyMessage id d)
  | trash : LabelChange.apply ⟨some ["TRASH"], some ["INBOX"]⟩ = c.apply →
      Makes c id (MailService.trashMessage id)
  | untrash : LabelChange.apply ⟨none, some ["TRASH"]⟩ = c.apply →
      Makes c id (MailService.untrashMessage id)

namespace Makes

variable {x : Call Store Unit} (h : Makes c id x) {store : Store}
include h

theorem ends (hstore : store.Sound) : Call.Ends x store
    (fun _ => (store.changeLabels c id).Reads) store.Refuses := by
  cases h with
  | modify hd =>
    rw [← Store.changeLabels_congr hd]
    exact Store.modifyMessage_ends hstore id _
  | trash hd =>
    rw [← Store.changeLabels_congr hd]
    exact Store.trashMessage_ends hstore id
  | untrash hd =>
    rw [← Store.changeLabels_congr hd]
    exact Store.untrashMessage_ends hstore id

theorem run (hplanned : store.planned = .empty) (hstored : store.messages.has id = true) :
    ∃ r, x.run store = (.ok (), (store.logged r).changeLabels c id) := by
  have hquiet : ∀ method, store.planned.get? method = none := by
    rw [hplanned]
    exact fun _ => rfl
  cases h with
  | modify hd =>
    exact ⟨_, Store.changeLabels_congr hd ▸ Store.modifyMessage_run id _ (hquiet _) hstored⟩
  | trash hd => exact ⟨_, Store.changeLabels_congr hd ▸ Store.trashMessage_run id (hquiet _)⟩
  | untrash hd => exact ⟨_, Store.changeLabels_congr hd ▸ Store.untrashMessage_run id (hquiet _)⟩

end Makes

/-- The new snapshot is of the message as it is after the change. -/
theorem Makes.message_ends (hs : s.Coherent) {x : Call Store Unit} (hx : Makes c id x) :
    Call.Ends (do onOutside (Bench.onStore x); message id) s
      (fun m t => (s.relabelled c id).Reads t ∧ m.id = id ∧ t.Current m)
      fun _ t => s.Reads t ∨ (s.relabelled c id).Reads t := by
  have hchange : Call.Ends (onOutside (Bench.onStore x)) s
      (fun _ t => (s.relabelled c id).Reads t)
      fun _ t => s.Reads t ∨ (s.relabelled c id).Reads t :=
    ends_onStore ((hx.ends hs.store).imp (fun _ _ h => (hs.relabelled c id).reads_withStore h)
      fun _ _ h => .inl (hs.reads_withStore h.1))
  refine hchange.andThen fun _ t ht => ?_
  exact (Session.message_ends ht.coherent id).imp (fun _ _ h => ⟨ht.trans h.1, h.2⟩)
    fun _ _ h => .inr (ht.trans h.1)

/-! ### Relabellings -/

/-- What callers do to the labels of one message that are no categories. -/
inductive Relabelling
  | addLabels (labels : Thing)
  | removeLabels (labels : Thing)
  | markRead (isRead : Bool)
  | markImportant (isImportant : Bool)
  | markStarred (isStarred : Bool)
  | archive
  | trash
  | untrash

namespace Relabelling

def op (m : Message) : Relabelling → Op Bench Message
  | addLabels labels => Session.addLabels m labels
  | removeLabels labels => Session.removeLabels m labels
  | markRead isRead => Session.markRead m isRead
  | markImportant isImportant => Session.markImportant m isImportant
  | markStarred isStarred => Session.markStarred m isStarred
  | archive => Session.archive m
  | trash => Session.trash m
  | untrash => Session.untrash m

/-- The labels of the caller's own choice. -/
def chosen : Relabelling → List Thing
  | addLabels labels => labels.items
  | removeLabels labels => labels.items
  | _ => []

/-- The label ids that the message has afterwards, whether it had them before or not. -/
def gains (s : Session Bench) : Relabelling → List String
  | addLabels labels => labels.items.map (·.id s)
  | markRead false => ["UNREAD"]
  | markImportant true => ["IMPORTANT"]
  | markStarred true => ["STARRED"]
  | trash => ["TRASH"]
  | _ => []

/-- The label ids that the message does not have afterwards. -/
def loses (s : Session Bench) : Relabelling → List String
  | removeLabels labels => labels.items.map (·.id s)
  | markRead true => ["UNREAD"]
  | markImportant false => ["IMPORTANT"]
  | markStarred false => ["STARRED"]
  | archive => ["INBOX"]
  | trash => ["INBOX"]
  | untrash => ["TRASH"]
  | _ => []

def change (s : Session Bench) (o : Relabelling) : LabelChange :=
  ⟨some (o.gains s), some (o.loses s)⟩

def operation (m : Message) : Relabelling → Operation
  | addLabels labels => .addLabels m labels
  | removeLabels labels => .removeLabels m labels
  | markRead isRead => .mark m .unread !isRead
  | markImportant isImportant => .mark m .important isImportant
  | markStarred isStarred => .mark m .starred isStarred
  | archive => .archive m
  | trash => .trash m
  | untrash => .untrash m

theorem after_operation (o : Relabelling) (m : Message) (s : Session Bench) :
    (o.operation m).after s = ((o.op m).run s).2 := by
  have hdiscard : ∀ x : Op Bench Message, ((discard x).run s).2 = (x.run s).2 := by
    intro x
    change ((x >>= fun _ => pure ()).run s).2 = _
    rw [Call.run_bind]
    rcases x.run s with ⟨failure | m, t⟩ <;> rfl
  cases o <;> exact hdiscard _

end Relabelling

theorem systemThing_id (hs : s.Coherent) (l : Label.System) : (systemThing l).id s = l.id := by
  obtain ⟨_, hstands⟩ := hs.stands
  have hfixed : Directory.system l ∈ Directory.initial.fixed := by
    cases l <;> decide +kernel
  refine (hstands.based.node_id hfixed).trans ?_
  cases l <;> decide +kernel

/-- Labels that are no categories are put on a message, or taken off it, by one request. -/
theorem addLabels_run {labels : Thing} (h : ∀ thing ∈ labels.items, thing.Plain s) (m : Message) :
    (addLabels m labels).run s = (change m { add := some (labels.items.map (·.id s)) }).run s := by
  have hids := MessageAction.plainIds_of_plain (fun thing hthing => ⟨h thing hthing, rfl⟩) m
  simp only [addLabels, Call.run_bind, Call.run_get, hids, ofExcept, Call.run_pure]

theorem removeLabels_run {labels : Thing} (h : ∀ thing ∈ labels.items, thing.Plain s)
    (m : Message) : (removeLabels m labels).run s =
      (change m { remove := some (labels.items.map (·.id s)) }).run s := by
  have hids := MessageAction.plainIds_of_plain (fun thing hthing => ⟨h thing hthing, rfl⟩) m
  simp only [removeLabels, Call.run_bind, Call.run_get, hids, ofExcept, Call.run_pure]

theorem mark_run (hs : s.Coherent) (m : Message) (l : Label.System) (isSet : Bool) :
    (mark m l isSet).run s =
      (change m (if isSet then { add := some [l.id] } else { remove := some [l.id] })).run s := by
  have hplain : ∀ thing ∈ (systemThing l).items, thing.Plain s := by
    intro thing hthing
    obtain rfl : thing = systemThing l := List.mem_singleton.mp hthing
    exact .system hs l
  have hids : (systemThing l).items.map (·.id s) = [l.id] := by
    rw [← systemThing_id hs l]
    rfl
  cases isSet with
  | true => exact (addLabels_run hplain m).trans (by rw [hids]; rfl)
  | false => exact (removeLabels_run hplain m).trans (by rw [hids]; rfl)

namespace Relabelling

variable {o : Relabelling}

/-- A relabelling is one request that makes its change, and reading the message. -/
theorem op_run (hs : s.Coherent) (hplain : ∀ thing ∈ o.chosen, thing.Plain s) (m : Message) :
    ∃ x, Makes (o.change s) m.id x ∧
      (o.op m).run s = (do onOutside (Bench.onStore x); message m.id : Op Bench Message).run s := by
  cases o with
  | addLabels labels =>
    have hc : LabelChange.apply { add := some (labels.items.map (·.id s)) } =
        (change s (addLabels labels)).apply := LabelChange.apply_congr rfl rfl
    exact ⟨_, .modify hc, addLabels_run hplain m⟩
  | removeLabels labels =>
    have hc : LabelChange.apply { remove := some (labels.items.map (·.id s)) } =
        (change s (removeLabels labels)).apply := LabelChange.apply_congr rfl rfl
    exact ⟨_, .modify hc, removeLabels_run hplain m⟩
  | markRead isRead =>
    refine ⟨_, .modify (LabelChange.apply_congr ?_ ?_), mark_run hs m .unread !isRead⟩ <;>
      cases isRead <;> rfl
  | markImportant isImportant =>
    refine ⟨_, .modify (LabelChange.apply_congr ?_ ?_), mark_run hs m .important isImportant⟩ <;>
      cases isImportant <;> rfl
  | markStarred isStarred =>
    refine ⟨_, .modify (LabelChange.apply_congr ?_ ?_), mark_run hs m .starred isStarred⟩ <;>
      cases isStarred <;> rfl
  | archive =>
    have hc : LabelChange.apply { remove := some ["INBOX"] } = (change s archive).apply :=
      LabelChange.apply_congr rfl rfl
    exact ⟨_, .modify hc, mark_run hs m .inbox false⟩
  | trash => exact ⟨_, .trash (LabelChange.apply_congr rfl rfl), rfl⟩
  | untrash => exact ⟨_, .untrash (LabelChange.apply_congr rfl rfl), rfl⟩

theorem op_ends (hs : s.Coherent) (hplain : ∀ thing ∈ o.chosen, thing.Plain s) (m : Message) :
    Call.Ends (o.op m) s
      (fun after t => (s.relabelled (o.change s) m.id).Reads t ∧ after.id = m.id ∧ t.Current after)
      fun _ t => s.Reads t ∨ (s.relabelled (o.change s) m.id).Reads t := by
  obtain ⟨x, hx, hrun⟩ := op_run hs hplain m
  rw [Call.Ends, hrun]
  exact hx.message_ends hs

end Relabelling

/-! ### Categories are refused -/

/-- A label that the session has loaded, or the handle of one of its nodes. -/
def Knows (s : Session Bench) : Thing → Prop
  | .entity e => ∃ x, s.entity? e = some x
  | .proxy r => s.directory.Has r
  | _ => False

namespace Knows

variable {thing : Thing} (h : s.Knows thing)
include h

theorem standsForCategory (hs : s.Coherent) :
    thing.standsForCategory s = isCategoryId (thing.id s) := by
  rw [Bool.eq_iff_iff]
  cases thing with
  | entity e => exact beq_iff_eq.trans (hs.entities e)
  | proxy r => exact beq_iff_eq.trans (hs.nodes r).kind
  | node | message | data | list => exact h.elim

theorem plain (hs : s.Coherent) (hid : isCategoryId (thing.id s) = false) : thing.Plain s := by
  cases thing with
  | entity e =>
    obtain ⟨x, hx⟩ := h
    refine ⟨x, hx, fun hcategory => ?_⟩
    have hkind := (hs.entities e).mp ((entityKind_of_entity? hx).trans hcategory)
    exact absurd (hid.symm.trans hkind) (by decide)
  | proxy r =>
    refine ⟨h, fun hcategory => ?_⟩
    exact absurd (hid.symm.trans ((hs.nodes r).kind.mp hcategory)) (by decide)
  | node | message | data | list => exact h.elim

end Knows

/-- The first category among some labels is named when they are refused. -/
theorem plainIds_of_category {labels : Thing}
    (h : ∃ thing ∈ labels.items, thing.standsForCategory s = true) (m : Message) :
    ∃ thing ∈ labels.items, thing.standsForCategory s = true ∧
      plainIds s m labels = .error (.typeMismatch ("category \"" ++ thing.name s ++ "\"")
        ("message " ++ m.id) "Label, LabelProxy") := by
  unfold plainIds
  generalize labels.items = things at h ⊢
  induction things with
  | nil => simp at h
  | cons first things ih =>
    rw [List.mapM_cons]
    cases hfirst : first.standsForCategory s with
    | true => exact ⟨first, List.mem_cons_self, hfirst, rfl⟩
    | false =>
      have hrest : ∃ thing ∈ things, thing.standsForCategory s = true := by
        simpa [hfirst] using h
      obtain ⟨thing, hthing, hcategory, herror⟩ := ih hrest
      refine ⟨thing, List.mem_cons_of_mem _ hthing, hcategory, ?_⟩
      rw [herror]
      rfl

theorem Relabelling.op_of_category (hs : s.Coherent) {o : Relabelling}
    (ho : ∀ thing ∈ o.chosen, s.Knows thing)
    (h : ∃ thing ∈ o.chosen, isCategoryId (thing.id s) = true) (m : Message) :
    ∃ thing ∈ o.chosen, isCategoryId (thing.id s) = true ∧
      (o.op m).run s = (.error (.typeMismatch ("category \"" ++ thing.name s ++ "\"")
        ("message " ++ m.id) "Label, LabelProxy"), s) := by
  have hstands : ∀ thing ∈ o.chosen,
      thing.standsForCategory s = isCategoryId (thing.id s) := fun thing hthing =>
    (ho thing hthing).standsForCategory hs
  obtain ⟨thing, hthing, hcategory⟩ := h
  cases o with
  | addLabels labels =>
    obtain ⟨named, hnamed, hstanding, herror⟩ :=
      plainIds_of_category ⟨thing, hthing, (hstands thing hthing).trans hcategory⟩ m
    refine ⟨named, hnamed, (hstands named hnamed).symm.trans hstanding, ?_⟩
    simp only [op, Session.addLabels, Call.run_bind, Call.run_get, herror, ofExcept, Call.run_throw]
  | removeLabels labels =>
    obtain ⟨named, hnamed, hstanding, herror⟩ :=
      plainIds_of_category ⟨thing, hthing, (hstands thing hthing).trans hcategory⟩ m
    refine ⟨named, hnamed, (hstands named hnamed).symm.trans hstanding, ?_⟩
    simp only [op, Session.removeLabels, Call.run_bind, Call.run_get, herror, ofExcept, Call.run_throw]
  | markRead | markImportant | markStarred | archive | trash | untrash => cases hthing

/-! ### Once for all -/

/-- A message that nothing keeps from being read: no failure is to come, and the store has a label
for each of its ids, under which it is found. -/
structure Serves (s : Session Bench) (id : String) : Prop where
  planned : s.outside.store.planned = .empty
  neat : s.outside.store.Neat
  found : ∀ label ∈ s.outside.store.labelIds id,
    s.Findable label ∧ s.outside.store.labels.has label = true

theorem Findable.withStore {label : String} (h : s.Findable label) {store : Store}
    (hlabels : store.labels = s.outside.store.labels) : (s.withStore store).Findable label := by
  cases h with
  | fixed hf hliving hfree => exact .fixed hf hliving (by rwa [Session.withStore, hlabels])
  | user hl hname =>
    refine .user ?_ ?_
    · rwa [Session.withStore, hlabels]
    · rwa [Session.withStore, hlabels]

theorem message_run (id : String) (s : Session Bench) : (message id).run s =
    match (MailService.getMessage (σ := Store) id).run s.outside.store with
    | (.ok r, store) => (messageOf r).run (s.withStore store)
    | (.error failure, store) => (.error failure, s.withStore store) := by
  change (onOutside (Bench.onStore (MailService.getMessage id)) >>= messageOf).run s = _
  rw [Call.run_bind, run_onStore]
  rcases (MailService.getMessage (σ := Store) id).run s.outside.store with ⟨failure | r, store⟩ <;>
    rfl

/-- A message that is served is read again after a change that makes no difference to it. -/
theorem Makes.returns {x : Call Store Unit} (hx : Makes c id x) (hfirst : first.New)
    (ht : Leads first t) (hserves : t.Serves id)
    (hstored : t.outside.store.messages.has id = true)
    (hsame : c.apply (t.outside.store.labelIds id) = t.outside.store.labelIds id)
    (hsingle : Single (t.outside.store.labelIds id)) :
    ∃ m u, (do onOutside (Bench.onStore x); message id : Op Bench Message).run t = (.ok m, u) := by
  obtain ⟨r, hchange⟩ := hx.run hserves.planned hstored
  let store := (t.outside.store.logged r).changeLabels c id
  have hlabelIds : store.labelIds id = t.outside.store.labelIds id :=
    (Store.labelIds_changeLabels c _ _ _).trans ((if_pos ⟨rfl, hstored⟩).trans hsame)
  have hthere : store.messages.has id = true :=
    (Store.has_changeLabels c (t.outside.store.logged r) id id).trans hstored
  obtain ⟨kept, hkept⟩ := Option.isSome_iff_exists.mp hthere
  let given : Message.Resource := { kept with labelIds := some (kept.labelIds.getD []) }
  have hlookUp : store.lookUp id = .ok given := by
    simp only [Store.lookUp, hkept]
    rfl
  have hids : given.labelIds.getD [] = t.outside.store.labelIds id := by
    rw [← hlabelIds, Store.labelIds, hkept]
    rfl
  have hquiet : store.planned.get? .getMessage = none := by
    change t.outside.store.planned.get? .getMessage = none
    rw [hserves.planned]
    rfl
  have hneat : (store.logged (.getMessage id)).Neat :=
    Store.Neat.logged ⟨Store.changeLabels_sound (hserves.neat.logged r).toSound c id,
      hserves.neat.once⟩ _
  obtain ⟨m, u, hread⟩ := messageOf_of_findable hfirst
    (ht.outside { t.outside with store := store.logged (.getMessage id) } hneat.labels) hneat
    hserves.planned given (fun label hlabel => by
      obtain ⟨hfind, hhas⟩ := hserves.found label (hids ▸ hlabel)
      exact ⟨hfind.withStore rfl, hhas⟩) (hids ▸ hsingle)
  refine ⟨m, u, ?_⟩
  rw [Call.run_bind, run_onStore, hchange]
  change (message id).run (t.withStore store) = _
  rw [message_run]
  change (match (MailService.getMessage (σ := Store) id).run store with
    | (.ok a, after) => (messageOf a).run (t.withStore after)
    | (.error failure, after) => (.error failure, t.withStore after)) = _
  rw [Store.getMessage_run id hquiet, hlookUp]
  exact hread

/-! ### Snapshots that are out of date -/

/-- A session that operations led to agrees with its store on what is a category, if the store is
sound. -/
theorem Leads.coherent (hfirst : first.New) (hs : Leads first s)
    (hstore : s.outside.store.Sound) : s.Coherent :=
  (hs.continues hfirst.orderly).orderly.coherent.withStore hstore

namespace Relabelling

variable {o : Relabelling}

theorem change_eq (hs : s.Coherent) (hplain : ∀ thing ∈ o.chosen, thing.Plain s)
    (hreads : (s.relabelled c id).Reads t) :
    (∀ thing ∈ o.chosen, thing.Plain t) ∧ o.change t = o.change s := by
  have hsame : ∀ thing ∈ o.chosen, thing.Plain t ∧ thing.id t = thing.id s := by
    intro thing hthing
    have hbefore := hplain thing hthing
    have hchanged : thing.Plain (s.relabelled c id) := by cases thing <;> exact hbefore
    have hid : thing.id (s.relabelled c id) = thing.id s := by cases thing <;> rfl
    obtain ⟨hafter, hkept⟩ := hchanged.reads (hs.relabelled c id) hreads
    exact ⟨hafter, hkept.trans hid⟩
  refine ⟨fun thing hthing => (hsame thing hthing).1, ?_⟩
  cases o with
  | addLabels labels | removeLabels labels =>
    have hids : labels.items.map (·.id t) = labels.items.map (·.id s) :=
      List.map_congr_left fun thing hthing => (hsame thing hthing).2
    simp only [change, gains, loses, hids]
  | markRead b | markImportant b | markStarred b => cases b <;> rfl
  | archive | trash | untrash => rfl

/-- After a relabelling the same one, by any snapshot of the message, makes no difference. -/
theorem again_ends (hfirst : first.New) (hs : Leads first s) (hcoherent : s.Coherent)
    (hplain : ∀ thing ∈ o.chosen, thing.Plain s) (hm : s.Holds m) {after : Message}
    (hrun : (o.op m).run s = (.ok after, t)) (hid : after.id = m.id) (hafter : t.Current after)
    (hreads : (s.relabelled (o.change s) m.id).Reads t) {again : Message}
    (hagain : again.id = m.id) : Call.Ends (o.op again) t
      (fun same u => u.idsOf same = t.idsOf after) fun _ _ => ¬t.Serves m.id := by
  obtain ⟨hplain', hchange⟩ := change_eq hcoherent hplain hreads
  have hids := labelIds_of_relabelled hreads hm.stored
  have hsame : (o.change t).apply (t.outside.store.labelIds m.id) =
      t.outside.store.labelIds m.id := by
    rw [hchange, hids, LabelChange.apply_apply]
  have hstored : t.outside.store.messages.has m.id = true := by
    rw [hreads.store.messages]
    exact (Store.has_changeLabels _ _ _ _).trans hm.stored
  have hends := op_ends hreads.coherent hplain' again
  obtain ⟨x, hx, hagainrun⟩ := op_run hreads.coherent hplain' again
  rw [hagain] at hends hx hagainrun
  have hreturns : t.Serves m.id → ∃ same u, (o.op again).run t = (.ok same, u) := by
    intro hserves
    have ht : Leads first t := by
      have hstep := hs.step (o.operation m)
      rwa [after_operation, hrun] at hstep
    rw [hagainrun]
    exact hx.returns hfirst ht hserves hstored hsame (hid ▸ hafter.single)
  refine (hends.fails_without hreturns).imp (fun same u hdone => ?_) fun _ _ hfailed => hfailed.2
  obtain ⟨hreads', hid', hsamecurrent⟩ := hdone
  rw [hsamecurrent.idsOf_eq, hafter.idsOf_eq, hid', hid,
    labelIds_of_relabelled hreads' hstored, hsame]

/-- Adding and taking away labels of a message, by a snapshot that may be out of date. Categories
are refused before any request. Otherwise a new snapshot has the labels that the store had for the
message and those that are gained, without those that are lost. The old snapshot and the other
messages stay as they were, even if the operation fails; and made again, by any snapshot of the
message, it leaves the same label ids, unless something keeps the message from being read. -/
theorem refines {first s : Session Bench} (hfirst : first.New) (hs : Leads first s)
    (hstore : s.outside.store.Sound) {m : Message} (hm : s.Holds m) {o : Relabelling}
    (ho : ∀ thing ∈ o.chosen, s.Knows thing) :
    ((∃ thing ∈ o.chosen, isCategoryId (thing.id s) = true) →
      ∃ thing ∈ o.chosen, isCategoryId (thing.id s) = true ∧
        (o.op m).run s = (.error (.typeMismatch ("category \"" ++ thing.name s ++ "\"")
          ("message " ++ m.id) "Label, LabelProxy"), s)) ∧
    ((∀ thing ∈ o.chosen, isCategoryId (thing.id s) = false) →
      Call.Ends (o.op m) s
        (fun after t => after.id = m.id ∧
          (∀ id, id ∈ t.idsOf after ↔
            (id ∈ s.outside.store.labelIds m.id ∨ id ∈ o.gains s) ∧ id ∉ o.loses s) ∧
          s.Spares m t ∧
          ∀ again : Message, again.id = m.id → Call.Ends (o.op again) t
            (fun same u => u.idsOf same = t.idsOf after) fun _ _ => ¬t.Serves m.id)
        fun _ t => s.Spares m t) := by
  have hcoherent := hs.coherent hfirst hstore
  refine ⟨fun hcategory => op_of_category hcoherent ho hcategory m, fun hother => ?_⟩
  have hplain : ∀ thing ∈ o.chosen, thing.Plain s := fun thing hthing =>
    (ho thing hthing).plain hcoherent (hother thing hthing)
  refine (op_ends hcoherent hplain m).withRun.imp (fun after t hdone => ?_) fun _ t hfailed => ?_
  · obtain ⟨⟨hreads, hid, hafter⟩, hrun⟩ := hdone
    refine ⟨hid, fun id => ?_, hm.spares_of_relabelled hreads, fun again hagain =>
      again_ends hfirst hs hcoherent hplain hm hrun hid hafter hreads hagain⟩
    rw [hafter.mem_idsOf, hid, labelIds_of_relabelled hreads hm.stored, LabelChange.mem_apply]
    rfl
  · rcases hfailed.1 with hreads | hreads
    · exact hm.spares_of_reads hreads
    · exact hm.spares_of_relabelled hreads

/-- A message is archived elsewhere after it was read. By the old snapshot a star and a label of
the user are put on it, and it stays archived; a category beside the star is refused. -/
theorem refines_outdated :
    let labels : Store := (Store.initial.seedLabel "Work" (some "Label_1")).2
    let r : Message.Resource :=
      { id := some "m1", labelIds := some ["INBOX", "CATEGORY_SOCIAL", "UNREAD"] }
    let archived : Message.Resource := { r with labelIds := some ["CATEGORY_SOCIAL", "UNREAD"] }
    let first := opened (labels.seedMessage r)
    let s : Session Bench := { (Operation.labelByName "Work").after
      (Operation.refresh.after ((Operation.message "m1").after first)) with
        outside := { store := labels.seedMessage archived } }
    let m : Message := .ofResource r [⟨0⟩, ⟨2⟩] (some ⟨1⟩)
    let star : Thing := .proxy (Directory.system .starred)
    let work : Thing := .entity ⟨3⟩
    let social : Thing := .proxy (Directory.category .social)
    first.New ∧ Leads first s ∧ s.outside.store.Sound ∧ s.Holds m ∧
    s.idsOf m = ["INBOX", "UNREAD", "CATEGORY_SOCIAL"] ∧
    (∃ failure, ((addLabels (.list [star, social])).op m).run s = (.error failure, s)) ∧
    ∃ after t, ((addLabels (.list [star, work])).op m).run s = (.ok after, t) ∧
      (∀ id, id ∈ t.idsOf after ↔
        (id ∈ ["CATEGORY_SOCIAL", "UNREAD"] ∨ id ∈ ["STARRED", "Label_1"]) ∧ id ∉ []) ∧
      s.Spares m t := by
  intro labels r archived first s m star work social
  have hlabels : labels.Neat := Store.initial_neat.seedLabel _ _
  have hfirst : first.New := opened_new (Store.seedMessage_sound hlabels.toSound r).labels
  have hstore : s.outside.store.Sound := Store.seedMessage_sound hlabels.toSound archived
  have hs : Leads first s :=
    (((Leads.start.step _).step _).step _).outside { store := labels.seedMessage archived }
      hstore.labels
  have hm : s.Holds m := by
    have hloaded : ∀ e ∈ m.labels ++ m.category.toList, (s.entity? e).isSome = true := by
      decide +kernel
    refine ⟨by decide +kernel, fun e he => Option.isSome_iff_exists.mp (hloaded e ?_)⟩
    simpa using he
  have hstar : s.Knows star := by
    change s.directory.Has (Directory.system .starred)
    decide +kernel
  have hsocial : s.Knows social := by
    change s.directory.Has (Directory.category .social)
    decide +kernel
  have hwork : s.Knows work := Option.isSome_iff_exists.mp (by decide +kernel)
  refine ⟨hfirst, hs, hstore, hm, by decide +kernel, ?_, ?_⟩
  · obtain ⟨hrefused, -⟩ := refines hfirst hs hstore hm (o := addLabels (.list [star, social]))
      (List.forall_mem_cons.mpr ⟨hstar, List.forall_mem_singleton.mpr hsocial⟩)
    obtain ⟨named, -, -, hrun⟩ := hrefused ⟨social, by simp [chosen, Thing.items], by decide +kernel⟩
    exact ⟨_, hrun⟩
  · obtain ⟨-, hends⟩ := refines hfirst hs hstore hm (o := addLabels (.list [star, work]))
      (List.forall_mem_cons.mpr ⟨hstar, List.forall_mem_singleton.mpr hwork⟩)
    obtain ⟨after, t, hrun⟩ : ∃ after t,
        ((addLabels (.list [star, work])).op m).run s = (.ok after, t) :=
      Call.exists_ok (by decide +kernel)
    have hother : ∀ thing ∈ (addLabels (.list [star, work])).chosen,
        isCategoryId (thing.id s) = false := by decide +kernel
    have hlabelIds : s.outside.store.labelIds m.id = ["CATEGORY_SOCIAL", "UNREAD"] := by
      decide +kernel
    have hgains : (addLabels (.list [star, work])).gains s = ["STARRED", "Label_1"] := by
      decide +kernel
    clear_value s
    obtain ⟨-, hids, hspares, -⟩ := (hends hother).ok hrun
    rw [hlabelIds, hgains] at hids
    exact ⟨after, t, hrun, hids, hspares⟩

end Relabelling

/-! ### Changing the category -/

section Swapping

variable {ids : List String} {x : String} {former : Option (List String)}
  (hx : isCategoryId x = true)
  (hformer : ∀ id, id ∈ former.getD [] ↔ id ∈ ids ∧ isCategoryId id = true)
include hx hformer

/-- What categories there are when one is put in the place of the former ones. -/
theorem filter_apply_swap : (LabelChange.apply ⟨some [x], former⟩ ids).filter isCategoryId =
    if x ∈ former.getD [] then [] else [x] := by
  have hnodup := (LabelChange.nodup_apply ⟨some [x], former⟩ ids).filter isCategoryId
  have hmem : ∀ id, id ∈ (LabelChange.apply ⟨some [x], former⟩ ids).filter isCategoryId ↔
      id = x ∧ x ∉ former.getD [] := by
    intro id
    rw [List.mem_filter, LabelChange.mem_apply]
    constructor
    · rintro ⟨⟨hid | hid, hkept⟩, hcategory⟩
      · exact absurd ((hformer id).mpr ⟨hid, hcategory⟩) hkept
      · obtain rfl := List.mem_singleton.mp hid
        exact ⟨rfl, hkept⟩
    · rintro ⟨rfl, hkept⟩
      exact ⟨⟨.inr (List.mem_singleton_self id), hkept⟩, hx⟩
  split
  case isTrue hsame =>
    exact List.eq_nil_iff_forall_not_mem.mpr fun id hid => ((hmem id).mp hid).2 hsame
  case isFalse hother =>
    refine List.perm_singleton.mp ((List.perm_ext_iff_of_nodup hnodup (by simp)).mpr fun id => ?_)
    rw [hmem, List.mem_singleton, and_iff_left hother]

theorem mem_apply_swap {id : String} (hid : isCategoryId id = false) :
    id ∈ LabelChange.apply ⟨some [x], former⟩ ids ↔ id ∈ ids := by
  have hne : id ≠ x := fun heq => absurd (hid.symm.trans (heq ▸ hx)) (by decide)
  have hkept : id ∉ former.getD [] := fun hmem =>
    absurd (hid.symm.trans ((hformer id).mp hmem).2) (by decide)
  rw [LabelChange.mem_apply, and_iff_left hkept]
  exact or_iff_left fun hmem => hne (List.mem_singleton.mp hmem)

end Swapping

section Filing

variable {s : Session Bench} {m : Message} {e : EntityRef} {x : Entity}

/-- The change that files a message under another category than before. -/
def filing (s : Session Bench) (m : Message) (x : Entity) : LabelChange :=
  ⟨some [x.id], m.category.map fun f => [s.entityId f]⟩

theorem changeCategory_run (hx : s.entity? e = some x) (hkind : x.kind = .category) :
    (changeCategory m (.entity e)).run s = (change m (filing s m x)).run s := by
  have his : (Thing.entity e).isCategory s = true :=
    beq_iff_eq.mpr ((entityKind_of_entity? hx).trans hkind)
  rw [changeCategory, Call.run_bind, Call.run_get]
  dsimp only
  rw [if_pos his, Thing.id, entityId_of_entity? hx]
  rfl

/-- Of a message that is up to date, all categories are taken away. -/
theorem mem_former (hm : s.Current m) (x : Entity) (id : String) :
    id ∈ (filing s m x).remove.getD [] ↔
      id ∈ s.outside.store.labelIds m.id ∧ isCategoryId id = true := by
  rw [← List.mem_filter, ← hm.2]
  cases hmc : m.category <;> simp [filing, hmc]

theorem self_mem_former : x.id ∈ (filing s m x).remove.getD [] ↔
    m.category.map s.entityId = some x.id := by
  cases hmc : m.category <;> simp [filing, hmc, eq_comm]

end Filing

/-- Filing a message under a category, by a snapshot that is up to date. The labels that are no
categories stay, and the category is the one asked for, unless that is the one the message had: then
it has none afterwards. -/
theorem changeCategory_swaps {first s : Session Bench} (hfirst : first.New) (hs : Leads first s)
    (hstore : s.outside.store.Sound) {m : Message} (hm : s.Current m)
    (hstored : s.outside.store.messages.has m.id = true) {e : EntityRef} {x : Entity}
    (hx : s.entity? e = some x) (hkind : x.kind = .category) :
    Call.Ends (changeCategory m (.entity e)) s
      (fun after t => after.id = m.id ∧
        after.category.map t.entityId =
          (if m.category.map s.entityId = some x.id then none else some x.id) ∧
        (∀ id, id ∈ after.labels.map t.entityId ↔ id ∈ m.labels.map s.entityId) ∧
        ∀ id, id ≠ m.id → t.outside.store.messages.get? id = s.outside.store.messages.get? id)
      fun _ t => ∀ id, id ≠ m.id →
        t.outside.store.messages.get? id = s.outside.store.messages.get? id := by
  have hcoherent := hs.coherent hfirst hstore
  have hcategory : isCategoryId x.id = true := by
    rw [← entityId_of_entity? hx, ← hcoherent.entities e, entityKind_of_entity? hx]
    exact hkind
  have hformer := mem_former hm x
  have hothers : ∀ t, (s.relabelled (filing s m x) m.id).Reads t → ∀ id, id ≠ m.id →
      t.outside.store.messages.get? id = s.outside.store.messages.get? id := by
    intro t hreads id hid
    rw [hreads.store.messages]
    exact Store.get?_changeLabels_of_ne (filing s m x) _ hid
  have hmakes : Makes (filing s m x) m.id (MailService.modifyMessage m.id (filing s m x)) :=
    .modify rfl
  rw [Call.Ends, changeCategory_run hx hkind]
  refine (hmakes.message_ends hcoherent).imp (fun after t hdone => ?_) fun _ t hfailed => ?_
  · obtain ⟨hreads, hid, hlabels, hcategories⟩ := hdone
    rw [hid, labelIds_of_relabelled hreads hstored] at hlabels hcategories
    refine ⟨hid, ?_, fun id => ?_, hothers t hreads⟩
    · have hlist : (after.category.map t.entityId).toList =
          if m.category.map s.entityId = some x.id then [] else [x.id] := by
        rw [← if_congr self_mem_former rfl rfl, ← filter_apply_swap hcategory hformer]
        refine Eq.trans ?_ hcategories
        cases after.category <;> rfl
      split at hlist
      case isTrue hold =>
        rw [if_pos hold]
        exact Option.toList_eq_nil_iff.mp hlist
      case isFalse hnew =>
        rw [if_neg hnew]
        exact Option.toList_eq_singleton_iff.mp hlist
    · rw [hlabels, hm.1, List.mem_filter, List.mem_filter, Bool.not_eq_true']
      exact and_congr_left (mem_apply_swap hcategory hformer)
  · rcases hfailed with hreads | hreads
    · exact fun id _ => by rw [hreads.store.messages]
    · exact hothers t hreads

/-- A message filed under a category is filed under another one, or under the same one again, which
takes its category away. -/
theorem changeCategory_swaps_twice :
    let r : Message.Resource := { id := some "m1", labelIds := some ["INBOX", "CATEGORY_SOCIAL"] }
    let store : Store := Store.initial.seedMessage r
    let first := opened store
    let s : Session Bench := { (Operation.entity (Directory.category .promotions)).after
      ((Operation.message "m1").after first) with outside := { store } }
    let m : Message := .ofResource r [⟨0⟩] (some ⟨1⟩)
    first.New ∧ Leads first s ∧ s.outside.store.Sound ∧ s.Current m ∧
    (∃ after t, (changeCategory m (.entity ⟨2⟩)).run s = (.ok after, t) ∧
      after.category.map t.entityId = some "CATEGORY_PROMOTIONS" ∧
      ∀ id, id ∈ after.labels.map t.entityId ↔ id ∈ ["INBOX"]) ∧
    ∃ after t, (changeCategory m (.entity ⟨1⟩)).run s = (.ok after, t) ∧
      after.category.map t.entityId = none ∧
      ∀ id, id ∈ after.labels.map t.entityId ↔ id ∈ ["INBOX"] := by
  intro r store first s m
  have hstore : s.outside.store.Sound := Store.seedMessage_sound Store.initial_sound r
  have hfirst : first.New := ⟨rfl, rfl, hstore.labels⟩
  have hs : Leads first s := ((Leads.start.step _).step _).outside { store } hstore.labels
  have hm : s.Current m := ⟨by decide +kernel, by decide +kernel⟩
  have hstored : s.outside.store.messages.has m.id = true := by decide +kernel
  have hloaded : (s.entity? ⟨2⟩).map (fun x => (x.id, x.kind)) =
        some ("CATEGORY_PROMOTIONS", .category) ∧
      (s.entity? ⟨1⟩).map (fun x => (x.id, x.kind)) = some ("CATEGORY_SOCIAL", .category) := by
    decide +kernel
  obtain ⟨x, hx, hxpair⟩ := Option.map_eq_some_iff.mp hloaded.1
  obtain ⟨y, hy, hypair⟩ := Option.map_eq_some_iff.mp hloaded.2
  obtain ⟨hxid, hxkind⟩ := Prod.mk.inj hxpair
  obtain ⟨hyid, hykind⟩ := Prod.mk.inj hypair
  have hother : ∃ after t, (changeCategory m (.entity ⟨2⟩)).run s = (.ok after, t) :=
    Call.exists_ok (by decide +kernel)
  have hsame : ∃ after t, (changeCategory m (.entity ⟨1⟩)).run s = (.ok after, t) :=
    Call.exists_ok (by decide +kernel)
  have hcategory : m.category.map s.entityId = some "CATEGORY_SOCIAL" := by decide +kernel
  have hlabels : m.labels.map s.entityId = ["INBOX"] := by decide +kernel
  refine ⟨hfirst, hs, hstore, hm, ?_, ?_⟩
  · obtain ⟨after, t, hrun⟩ := hother
    clear_value s
    obtain ⟨-, hfiled, hkept, -⟩ :=
      (changeCategory_swaps hfirst hs hstore hm hstored hx hxkind).ok hrun
    rw [hcategory, hxid, if_neg (by decide)] at hfiled
    exact ⟨after, t, hrun, hfiled, hlabels ▸ hkept⟩
  · obtain ⟨after, t, hrun⟩ := hsame
    clear_value s
    obtain ⟨-, hfiled, hkept, -⟩ :=
      (changeCategory_swaps hfirst hs hstore hm hstored hy hykind).ok hrun
    rw [hcategory, hyid, if_pos rfl] at hfiled
    exact ⟨after, t, hrun, hfiled, hlabels ▸ hkept⟩

end Mailroom.Session
