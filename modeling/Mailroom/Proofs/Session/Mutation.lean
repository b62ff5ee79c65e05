import Mailroom.Proofs.Session.Snapshot
import Mailroom.Session.Bulk

/-! Mutations of messages: what callers may do to one message by a snapshot of it, and in bulk to
the messages of a query. Each is one change of labels in the store, or none, and reads only besides.
The changes of one message leave it with at most one category if it had no more before. -/

namespace Mailroom

/-- What callers may add to a message or take from it: a loaded label or the handle of one. -/
def Thing.IsLabel : Thing → Prop
  | entity _ => True
  | proxy _ => True
  | _ => False

namespace Session

open Label (isCategoryId Directory EntityRef NodeRef)
open Remote (Bench LabelChange MailService Store)

/-- What callers may do to one message, by a snapshot of it. -/
inductive Mutation
  | addLabels (m : Message) (labels : Thing)
  | removeLabels (m : Message) (labels : Thing)
  | changeCategory (m : Message) (category : Thing)
  | mark (m : Message) (l : Label.System) (isSet : Bool)
  | archive (m : Message)
  | trash (m : Message)
  | untrash (m : Message)

namespace Mutation

def message : Mutation → Message
  | addLabels m _ => m
  | removeLabels m _ => m
  | changeCategory m _ => m
  | mark m _ _ => m
  | archive m => m
  | trash m => m
  | untrash m => m

def op : Mutation → Op Bench Message
  | addLabels m labels => Session.addLabels m labels
  | removeLabels m labels => Session.removeLabels m labels
  | changeCategory m category => Session.changeCategory m category
  | mark m l isSet => Session.mark m l isSet
  | archive m => Session.archive m
  | trash m => Session.trash m
  | untrash m => Session.untrash m

/-- What callers see to: only labels are added, and a category is changed by a snapshot that is up
to date. -/
def Proper (s : Session Bench) : Mutation → Prop
  | addLabels _ labels => ∀ thing ∈ labels.items, thing.IsLabel
  | changeCategory m _ => s.Current m
  | _ => True

end Mutation

/-- What callers may do in bulk, deleting apart. Archiving is taking the mark of the inbox away. -/
inductive BulkMutation
  | addLabels (labels : Thing)
  | removeLabels (labels : Thing)
  | changeCategory (category : Thing)
  | mark (l : Label.System) (isSet : Bool)

namespace BulkMutation

/-- The action on the messages of a query. -/
def action (s : Session Bench) (q : Query) : BulkMutation →
    Except Failure (BulkAction (Session Bench))
  | addLabels labels => .ok (bulkAdd s q labels)
  | removeLabels labels => .ok (bulkRemove s q labels)
  | changeCategory category => bulkCategory s q category
  | mark l isSet => .ok (bulkMark s q l isSet)

/-- The labels of the caller's own choice that are added. -/
def chosen (s : Session Bench) : BulkMutation → List String
  | addLabels labels => labels.items.map (·.id s)
  | removeLabels _ => []
  | changeCategory category => [category.id s]
  | mark _ _ => []

end BulkMutation

/-! ### Categories among labels -/

theorem Single.eq {ids : List String} (h : Single ids) {x y : String} (hx : x ∈ ids) (hy : y ∈ ids)
    (hxc : isCategoryId x = true) (hyc : isCategoryId y = true) : x = y := by
  rw [Single, List.countP_eq_length_filter] at h
  have hxf := List.mem_filter.mpr ⟨hx, hxc⟩
  have hyf := List.mem_filter.mpr ⟨hy, hyc⟩
  cases hids : ids.filter isCategoryId with
  | nil => simp [hids] at hxf
  | cons first rest =>
    rw [hids, List.length_cons] at h
    obtain rfl : rest = [] := List.eq_nil_of_length_eq_zero (by omega)
    rw [hids, List.mem_singleton] at hxf hyf
    rw [hxf, hyf]

theorem single_of_nodup {ids : List String} (hids : ids.Nodup)
    (h : ∀ x ∈ ids, ∀ y ∈ ids, isCategoryId x = true → isCategoryId y = true → x = y) :
    Single ids := by
  rw [Single, List.countP_eq_length_filter]
  have hnodup := hids.filter isCategoryId
  have hmem : ∀ x ∈ ids.filter isCategoryId, x ∈ ids ∧ isCategoryId x = true := fun x =>
    List.mem_filter.mp
  rcases hfilter : ids.filter isCategoryId with _ | ⟨x, _ | ⟨y, rest⟩⟩
  · simp
  · simp
  · rw [hfilter] at hnodup hmem
    obtain ⟨hx, hxc⟩ := hmem x (by simp)
    obtain ⟨hy, hyc⟩ := hmem y (by simp)
    simp [h x hx y hy hxc hyc] at hnodup

/-- A change after which a message with these labels carries at most one category. -/
def Suits (c : LabelChange) (ids : List String) : Prop :=
  ∀ x y, (x ∈ ids ∨ x ∈ c.add.getD []) ∧ x ∉ c.remove.getD [] →
    (y ∈ ids ∨ y ∈ c.add.getD []) ∧ y ∉ c.remove.getD [] →
    isCategoryId x = true → isCategoryId y = true → x = y

/-- Changes that add no category. -/
theorem Single.suits {ids : List String} (h : Single ids) {c : LabelChange}
    (hc : ∀ x ∈ c.add.getD [], isCategoryId x = false) : Suits c ids := by
  intro x y hx hy hxc hyc
  have hold : ∀ z, z ∈ ids ∨ z ∈ c.add.getD [] → isCategoryId z = true → z ∈ ids := fun z hz hzc =>
    hz.resolve_right fun hadd => by simp [hc z hadd] at hzc
  exact h.eq (hold x hx.1 hxc) (hold y hy.1 hyc) hxc hyc

/-- Changes that put a category in the place of the one that is there. -/
theorem suits_of_swap {ids : List String} (category : String) {former : Option (List String)}
    (h : ids.filter isCategoryId = former.getD []) : Suits ⟨some [category], former⟩ ids := by
  have hnew : ∀ z, (z ∈ ids ∨ z ∈ [category]) ∧ z ∉ former.getD [] → isCategoryId z = true →
      z = category := by
    rintro z ⟨hz | hz, hkept⟩ hzc
    · exact absurd (h ▸ List.mem_filter.mpr ⟨hz, hzc⟩) hkept
    · exact List.mem_singleton.mp hz
  intro x y hx hy hxc hyc
  rw [hnew x hx hxc, hnew y hy hyc]

variable {s t u : Session Bench}

/-- A change that suits the messages it is made to leaves every message with at most one category
that had at most one. -/
theorem single_changeAll {store : Store} {c : LabelChange} {ids : List String} {id : String}
    (hone : Single (store.labelIds id)) (hsuits : id ∈ ids → Suits c (store.labelIds id)) :
    Single ((store.changeAll c ids).labelIds id) := by
  by_cases hid : id ∈ ids
  · cases hhas : store.messages.has id with
    | false => rwa [Store.labelIds_changeAll_of_not_has hhas]
    | true =>
      obtain ⟨hnodup, hmem⟩ := Store.labelIds_changeAll_of_mem hid hhas
      exact single_of_nodup hnodup fun x hx y hy =>
        hsuits hid x y ((hmem x).mp hx) ((hmem y).mp hy)
  · rwa [Store.labelIds_changeAll_of_not_mem hid]

/-! ### What mutations do -/

/-- What an operation does that changes the labels of messages, if it comes to that, and reads only
besides. -/
def Alters (s : Session Bench) (c : LabelChange) (ids : List String) (t : Session Bench) : Prop :=
  s.Reads t ∨ t.Coherent ∧ (s.outside.store.changeAll c ids).Reads t.outside.store

/-- A failure of such an operation; it is one of reading messages only if one of them has several
categories after the change. -/
def FailsAltering (s : Session Bench) (c : LabelChange) (ids : List String) (failure : Failure)
    (t : Session Bench) : Prop :=
  s.Alters c ids t ∧ ((∀ id ∈ ids, Single ((s.outside.store.changeAll c ids).labelIds id)) →
    failure.kind? ≠ some .parse)

/-- A change of labels in the store, and reading the message afterwards. -/
theorem thenMessage_ends (hs : s.Coherent) {x : Call Store Unit} {c : LabelChange} {id : String}
    (hx : Call.Ends x s.outside.store
      (fun _ => (s.outside.store.changeAll c [id]).Reads) s.outside.store.Refuses) :
    Call.Ends (do onOutside (Bench.onStore x); Session.message id) s (fun _ => s.Alters c [id])
      (s.FailsAltering c [id]) := by
  have hchange : Call.Ends (onOutside (Bench.onStore x)) s (fun _ t => t.Coherent ∧
      (s.outside.store.changeAll c [id]).Reads t.outside.store) (s.FailsAltering c [id]) :=
    ends_onStore (hx.imp
      (fun _ _ h => ⟨hs.withStore (h.sound (Store.changeAll_sound c [id] hs.store)), h⟩)
      fun _ _ h => ⟨.inl (hs.reads_withStore h.1), fun _ => h.2⟩)
  refine hchange.andThen fun _ t ⟨ht, hstore⟩ => ?_
  have halters : ∀ u, t.Reads u → s.Alters c [id] u := fun u hu =>
    .inr ⟨hu.coherent, hstore.trans hu.store⟩
  refine (message_ends ht id).imp (fun _ u h => halters u h.1)
    fun _ u h => ⟨halters u h.1, fun hone => h.2 fun other hother => ?_⟩
  rw [hstore.labelIds]
  exact hone other hother

theorem change_ends (hs : s.Coherent) (m : Message) (c : LabelChange) :
    Call.Ends (change m c) s (fun _ => s.Alters c [m.id]) (s.FailsAltering c [m.id]) :=
  thenMessage_ends hs (Store.modifyMessage_ends hs.store m.id c)

/-- Labels that are not refused are those asked for, and none stands for a category. -/
theorem plainIds_cases (s : Session Bench) (m : Message) (labels : Thing) :
    (plainIds s m labels = .ok (labels.items.map (·.id s)) ∧
      ∀ thing ∈ labels.items, thing.standsForCategory s = false) ∨
    ∃ failure, plainIds s m labels = .error failure ∧ failure.kind? ≠ some .parse := by
  unfold plainIds
  generalize labels.items = things
  induction things with
  | nil => exact .inl ⟨rfl, by simp⟩
  | cons thing things ih =>
    rw [List.mapM_cons]
    cases hcategory : thing.standsForCategory s with
    | true => exact .inr ⟨_, rfl, by simp [Failure.kind?]⟩
    | false =>
      obtain ⟨hok, hplain⟩ | ⟨failure, herror, hkind⟩ := ih
      · rw [hok]
        exact .inl ⟨rfl, List.forall_mem_cons.mpr ⟨hcategory, hplain⟩⟩
      · rw [herror]
        exact .inr ⟨failure, rfl, hkind⟩

theorem isCategoryId_id (hs : s.Coherent) {thing : Thing} (hthing : thing.IsLabel)
    (h : thing.standsForCategory s = false) : isCategoryId (thing.id s) = false := by
  cases thing with
  | entity e => exact Bool.eq_false_iff.mpr (mt (hs.entities e).mpr (of_decide_eq_false h))
  | proxy r => exact Bool.eq_false_iff.mpr (mt (hs.nodes r).kind.mpr (of_decide_eq_false h))
  | node | message | data | list => exact hthing.elim

/-- A change by labels that may be refused. -/
theorem plainChange_ends (hs : s.Coherent) (m : Message) (labels : Thing)
    (make : List String → LabelChange) : ∃ c : LabelChange,
      (c = {} ∨ c = make (labels.items.map (·.id s)) ∧
        ∀ thing ∈ labels.items, thing.standsForCategory s = false) ∧
      Call.Ends (do
        let ids ← ofExcept (plainIds (← get) m labels)
        change m (make ids)) s (fun _ => s.Alters c [m.id]) (s.FailsAltering c [m.id]) := by
  obtain ⟨hok, hplain⟩ | ⟨failure, herror, hkind⟩ := plainIds_cases s m labels
  · refine ⟨_, .inr ⟨rfl, hplain⟩, Call.Ends.getThen ?_⟩
    rw [hok]
    exact Call.Ends.bind (change_ends hs m _)
  · refine ⟨{}, .inl rfl, Call.Ends.getThen ?_⟩
    rw [herror]
    exact ⟨.inl hs.reads, fun _ => hkind⟩

theorem addLabels_ends (hs : s.Coherent) (m : Message) {labels : Thing}
    (hlabels : ∀ thing ∈ labels.items, thing.IsLabel) : ∃ c : LabelChange,
      (∀ x ∈ c.add.getD [], isCategoryId x = false) ∧
      Call.Ends (addLabels m labels) s (fun _ => s.Alters c [m.id]) (s.FailsAltering c [m.id]) := by
  obtain ⟨c, hc, hends⟩ := plainChange_ends hs m labels fun ids => { add := some ids }
  refine ⟨c, fun x hx => ?_, hends⟩
  obtain rfl | ⟨rfl, hplain⟩ := hc
  · cases hx
  · obtain ⟨thing, hthing, rfl⟩ := List.mem_map.mp hx
    exact isCategoryId_id hs (hlabels thing hthing) (hplain thing hthing)

theorem removeLabels_ends (hs : s.Coherent) (m : Message) (labels : Thing) : ∃ c : LabelChange,
      (∀ x ∈ c.add.getD [], isCategoryId x = false) ∧
      Call.Ends (removeLabels m labels) s (fun _ => s.Alters c [m.id])
        (s.FailsAltering c [m.id]) := by
  obtain ⟨c, hc, hends⟩ := plainChange_ends hs m labels fun ids => { remove := some ids }
  refine ⟨c, fun x hx => ?_, hends⟩
  obtain rfl | ⟨rfl, -⟩ := hc <;> cases hx

theorem changeCategory_ends (hs : s.Coherent) {m : Message} (hm : s.Current m)
    (category : Thing) : ∃ c : LabelChange, Suits c (s.outside.store.labelIds m.id) ∧
      Call.Ends (changeCategory m category) s (fun _ => s.Alters c [m.id])
        (s.FailsAltering c [m.id]) := by
  refine ⟨⟨some [category.id s], m.category.map fun c => [s.entityId c]⟩, suits_of_swap _ ?_, ?_⟩
  · rw [← hm.2]
    cases m.category <;> rfl
  · rw [changeCategory]
    refine Call.Ends.getThen ?_
    split
    · exact change_ends hs m _
    · exact ⟨.inl hs.reads, fun _ => by simp [Failure.kind?]⟩

/-- A mutation of a message is one change of its labels, after which it carries at most one category
if it did before. -/
theorem Mutation.ends (hs : s.Coherent) {m : Mutation} (hm : m.Proper s) : ∃ c : LabelChange,
    (Single (s.outside.store.labelIds m.message.id) →
      Suits c (s.outside.store.labelIds m.message.id)) ∧
    Call.Ends m.op s (fun _ => s.Alters c [m.message.id]) (s.FailsAltering c [m.message.id]) := by
  cases m with
  | addLabels m labels =>
    obtain ⟨c, hc, hends⟩ := addLabels_ends hs m hm
    exact ⟨c, fun hone => hone.suits hc, hends⟩
  | removeLabels m labels =>
    obtain ⟨c, hc, hends⟩ := removeLabels_ends hs m labels
    exact ⟨c, fun hone => hone.suits hc, hends⟩
  | changeCategory m category =>
    obtain ⟨c, hc, hends⟩ := changeCategory_ends hs hm category
    exact ⟨c, fun _ => hc, hends⟩
  | mark m l isSet =>
    cases isSet with
    | true =>
      have hlabel : ∀ thing ∈ (systemThing l).items, thing.IsLabel := by
        simp [systemThing, Thing.items, Thing.IsLabel]
      obtain ⟨c, hc, hends⟩ := addLabels_ends hs m hlabel
      exact ⟨c, fun hone => hone.suits hc, hends⟩
    | false =>
      obtain ⟨c, hc, hends⟩ := removeLabels_ends hs m (systemThing l)
      exact ⟨c, fun hone => hone.suits hc, hends⟩
  | archive m =>
    obtain ⟨c, hc, hends⟩ := removeLabels_ends hs m (systemThing .inbox)
    exact ⟨c, fun hone => hone.suits hc, hends⟩
  | trash m =>
    refine ⟨_, fun hone => hone.suits ?_,
      thenMessage_ends hs (Store.trashMessage_ends hs.store m.id)⟩
    decide
  | untrash m =>
    refine ⟨_, fun hone => hone.suits ?_,
      thenMessage_ends hs (Store.untrashMessage_ends hs.store m.id)⟩
    decide

/-! ### What bulk mutations do -/

theorem bulkChange_ends (hs : s.Coherent) (q : Query) (c : LabelChange) (ids : List String) :
    Call.Ends ((bulkChange q c).perform ids) s
      (fun _ t => t.Coherent ∧ (s.outside.store.changeAll c ids).Reads t.outside.store)
      s.Refuses := by
  change Call.Ends (if ids.isEmpty then pure () else _) s _ _
  split
  case isTrue hempty =>
    obtain rfl := List.isEmpty_iff.mp hempty
    exact ⟨hs, .refl _⟩
  case isFalse =>
    exact ends_onStore ((Store.modifyMessages_ends hs.store ids c).imp
      (fun _ _ h => ⟨hs.withStore (h.sound (Store.changeAll_sound c ids hs.store)), h⟩)
      fun _ _ h => ⟨hs.reads_withStore h.1, h.2⟩)

theorem isCategoryId_system (hs : s.Coherent) (l : Label.System) :
    isCategoryId ((systemThing l).id s) = false := by
  obtain ⟨_, hstands⟩ := hs.stands
  have hfixed : Directory.system l ∈ Directory.initial.fixed := by
    cases l <;> decide +kernel
  change isCategoryId (s.directory.node (Directory.system l)).id = false
  rw [hstands.based.node_id hfixed]
  cases l <;> decide +kernel

theorem bulkCategory_eq_ok {q : Query} {category : Thing} {a : BulkAction (Session Bench)} :
    bulkCategory s q category = .ok a ↔ category.isCategory s = true ∧
      a = bulkChange q { add := some [category.id s] } := by
  unfold bulkCategory
  by_cases h : category.isCategory s = true
  · simp [h, eq_comm]
  · simp [h]

theorem isCategoryId_of_isCategory (hs : s.Coherent) {category : Thing}
    (h : category.isCategory s = true) : isCategoryId (category.id s) = true := by
  cases category with
  | entity e => exact (hs.entities e).mp (of_decide_eq_true h)
  | proxy | node | message | data | list => cases h

/-- A bulk mutation is one change of labels; the only categories that it adds are chosen by the
caller. -/
theorem BulkMutation.action_eq (hs : s.Coherent) {q : Query} {b : BulkMutation}
    {a : BulkAction (Session Bench)} (h : b.action s q = .ok a) : ∃ c, a = bulkChange q c ∧
      ∀ x ∈ c.add.getD [], isCategoryId x = true → x ∈ b.chosen s := by
  cases b with
  | addLabels labels =>
    obtain rfl := Except.ok.inj h
    exact ⟨_, rfl, fun x hx _ => hx⟩
  | removeLabels labels =>
    obtain rfl := Except.ok.inj h
    exact ⟨_, rfl, by simp⟩
  | changeCategory category =>
    obtain ⟨-, rfl⟩ := bulkCategory_eq_ok.mp h
    exact ⟨_, rfl, fun x hx _ => hx⟩
  | mark l isSet =>
    obtain rfl := Except.ok.inj h
    cases isSet with
    | true =>
      refine ⟨_, rfl, fun x hx hcategory => ?_⟩
      obtain rfl : x = (systemThing l).id s := List.mem_singleton.mp hx
      exact absurd ((isCategoryId_system hs l).symm.trans hcategory) (by decide)
    | false => exact ⟨_, rfl, by simp⟩

end Session

end Mailroom
