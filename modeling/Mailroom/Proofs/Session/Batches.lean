import Mailroom.Proofs.Remote.Answers
import Mailroom.Proofs.Session.Coherence
import Mailroom.Session.Query

/-! Messages fetched in batches and one by one. A batch reads all its messages before it looks up
their labels, and one by one they are read as they come; but reading messages leaves the labels and
the directory alone, so both look up the same labels in the same order, from the same directory.
They succeed together, with the same messages. -/

namespace Mailroom.Session

open Label (EntityRef NodeRef)
open Remote (Bench MailService Method Request Store)

/-- Whether requests of the method ask about labels. -/
def asksLabels : Method → Bool
  | .listLabels => true
  | .getLabel => true
  | _ => false

/-- The requests about labels that a store was asked. -/
def labelCalls (s : Store) : List Request := s.calls.filter fun r => asksLabels r.method

/-- A store with the labels and messages of another, and with no failure planned. -/
structure Over (store now : Store) : Prop where
  labels : now.labels = store.labels
  messages : now.messages = store.messages
  planned : now.planned = .empty

/-- Two sessions over one store that differ at most in their clocks, their settings and the requests
for messages that they made. -/
structure Twins (store : Store) (s t : Session Bench) : Prop where
  left : Over store s.outside.store
  right : Over store t.outside.store
  directory : s.directory = t.directory
  entities : s.entities = t.entities
  calls : labelCalls s.outside.store = labelCalls t.outside.store

theorem labelCalls_logged (s : Store) (r : Request) :
    labelCalls (s.logged r) = labelCalls s ++ if asksLabels r.method then [r] else [] := by
  cases hr : asksLabels r.method <;> simp [labelCalls, Store.logged, hr]

variable {store now : Store} {s t : Session Bench}

namespace Over

theorem free (h : Over store now) (m : Method) : now.planned.get? m = none := by
  rw [h.planned]
  rfl

theorem logged (h : Over store now) (r : Request) : Over store (now.logged r) :=
  ⟨h.labels, h.messages, h.planned⟩

theorem getMessage_run (h : Over store s.outside.store) (id : String) :
    (onOutside (MailService.getMessage id)).run s =
      (store.lookUp id, s.withStore (s.outside.store.logged (.getMessage id))) := by
  have hrun := run_onStore (MailService.getMessage id) s
  rwa [Store.getMessage_run id (h.free _), Store.lookUp_congr h.messages] at hrun

theorem getMessages_run (h : Over store s.outside.store) (ids : List String) :
    (onOutside (MailService.getMessages ids)).run s =
      (ids.mapM store.lookUp, s.withStore (s.outside.store.logged (.getMessages ids))) := by
  have hrun := run_onStore (MailService.getMessages ids) s
  rwa [Store.getMessages_run ids (h.free _), Store.lookUp_congr h.messages] at hrun

end Over

namespace Twins

/-- Both sessions make a request. -/
theorem logged (h : Twins store s t) (r : Request) :
    Twins store (s.withStore (s.outside.store.logged r)) (t.withStore (t.outside.store.logged r)) :=
  ⟨h.left.logged r, h.right.logged r, h.directory, h.entities, by
    simp only [withStore, labelCalls_logged, h.calls]⟩

theorem logged_left (h : Twins store s t) {r : Request} (hr : asksLabels r.method = false) :
    Twins store (s.withStore (s.outside.store.logged r)) t :=
  ⟨h.left.logged r, h.right, h.directory, h.entities, by
    simp [withStore, labelCalls_logged, hr, h.calls]⟩

theorem logged_right (h : Twins store s t) {r : Request} (hr : asksLabels r.method = false) :
    Twins store s (t.withStore (t.outside.store.logged r)) :=
  ⟨h.left, h.right.logged r, h.directory, h.entities, by
    simp [withStore, labelCalls_logged, hr, h.calls]⟩

/-! ### Looking up labels -/

theorem refresh : Call.Agree (Twins store) Session.refresh Session.refresh := by
  intro s t h
  have hlist : ∀ u : Session Bench, Over store u.outside.store →
      (MailService.listLabels (σ := Bench)).run u.outside = (.ok store.labels.values,
        (u.withStore (u.outside.store.logged .listLabels)).outside) := by
    intro u hu
    have hrun := Store.listLabels_run (hu.free .listLabels)
    rw [hu.labels] at hrun
    exact congrArg (fun p => (p.1, { u.outside with store := p.2 })) hrun
  rw [refresh_run, refresh_run, hlist s h.left, hlist t h.right, h.directory]
  have hlogged := h.logged .listLabels
  exact ⟨rfl, ⟨hlogged.left, hlogged.right, rfl, h.entities, hlogged.calls⟩⟩

theorem load (r : NodeRef) : Call.Agree (Twins store) (Session.load r) (Session.load r) := by
  intro s t h
  obtain ⟨answer, hget⟩ : ∃ answer, ∀ u : Session Bench, Over store u.outside.store →
      (MailService.getLabel (σ := Bench) (t.directory.node r).id).run u.outside =
        (answer,
          (u.withStore (u.outside.store.logged (.getLabel (t.directory.node r).id))).outside) := by
    exact Exists.intro _ fun u hu => by
      have hrun := Store.getLabel_run (t.directory.node r).id (hu.free .getLabel)
      rw [hu.labels] at hrun
      exact congrArg (fun p => (p.1, { u.outside with store := p.2 })) hrun
  rw [load_run, load_run, h.directory, hget s h.left, hget t h.right, h.entities]
  cases answer with
  | error failure => trivial
  | ok label =>
    have hlogged := h.logged (.getLabel (t.directory.node r).id)
    exact ⟨rfl, ⟨hlogged.left, hlogged.right, rfl, rfl, hlogged.calls⟩⟩

theorem entity (r : NodeRef) : Call.Agree (Twins store) (Session.entity r) (Session.entity r) := by
  refine .getThen fun s t h => ?_
  rw [h.directory]
  rcases t.directory.standing r with failure | (e | generation)
  · exact .throw _ _
  · exact .pure e
  · refine (load r).bind fun e => ?_
    refine .bind (fun s t h => ⟨rfl, ?_⟩) fun _ => .pure e
    exact ⟨h.left, h.right, congrArg (·.keep r e generation) h.directory, h.entities, h.calls⟩

theorem nodeById (id : String) :
    Call.Agree (Twins store) (Session.nodeById id) (Session.nodeById id) := by
  refine .getThen fun s t h => ?_
  rw [h.directory]
  cases t.directory.registry.getById id with
  | error failure => exact .throw _ _
  | ok r => exact .pure r

theorem labelsOf (asked : Bool) (ids : List String) :
    Call.Agree (Twins store) (Session.labelsOf asked ids) (Session.labelsOf asked ids) := by
  induction ids generalizing asked with
  | nil => exact .pure _
  | cons id ids ih =>
    have hrest : ∀ asked, Call.Agree (Twins store)
        (do
          let e ← Session.entity (← Session.nodeById id)
          let found ← Session.labelsOf asked ids
          if (← get).entityKind e = .category then return (found.1, e :: found.2)
          else return (e :: found.1, found.2))
        (do
          let e ← Session.entity (← Session.nodeById id)
          let found ← Session.labelsOf asked ids
          if (← get).entityKind e = .category then return (found.1, e :: found.2)
          else return (e :: found.1, found.2)) := by
      intro asked
      refine (nodeById id).bind fun r => (entity r).bind fun e => (ih asked).bind fun found => ?_
      refine .getThen fun s t h => ?_
      rw [entityKind, entityKind, entity?, entity?, h.entities]
      split
      · exact .pure _
      · exact .pure _
    refine .getThen fun s t h => ?_
    rw [h.directory]
    dsimp only
    split
    · exact refresh.bind fun _ => hrest _
    · exact hrest _

theorem messageOf (r : Message.Resource) :
    Call.Agree (Twins store) (Session.messageOf r) (Session.messageOf r) := by
  refine (labelsOf false (r.labelIds.getD [])).bind fun found => ?_
  obtain ⟨labels, _ | ⟨category, _ | ⟨second, rest⟩⟩⟩ := found
  · exact .pure _
  · exact .pure _
  · exact .getThen fun _ _ _ => .throw _ _

/-! ### Reading messages -/

/-- One by one, a message is read right before its labels are looked up. -/
theorem message {id : String} {r : Message.Resource} (hr : store.lookUp id = .ok r) :
    Call.Agree (Twins store) (Session.message id) (Session.messageOf r) := by
  refine .thenLeft fun s t h => ⟨r, _, ?_, h.logged_left (r := .getMessage id) rfl, messageOf r⟩
  rw [h.left.getMessage_run, hr]

/-- Messages that are all there. -/
theorem mapM_message {ids : List String} {rs : List Message.Resource}
    (hrs : ids.mapM store.lookUp = .ok rs) :
    Call.Agree (Twins store) (ids.mapM Session.message) (rs.mapM Session.messageOf) := by
  induction ids generalizing rs with
  | nil =>
    obtain rfl := Except.ok.inj hrs
    exact .pure []
  | cons id ids ih =>
    rw [List.mapM_cons] at hrs
    cases hr : store.lookUp id with
    | error failure => simp [hr, bind, Except.bind] at hrs
    | ok r =>
      cases hrest : ids.mapM store.lookUp with
      | error failure => simp [hr, hrest, bind, Except.bind] at hrs
      | ok rest =>
        rw [hr, hrest] at hrs
        obtain rfl := Except.ok.inj hrs
        rw [List.mapM_cons, List.mapM_cons]
        exact (message hr).bind fun m => (ih hrest).bind fun ms => .pure (m :: ms)

/-- A message has the id of what was read for it. -/
theorem id_of_messageOf {r : Message.Resource} {m : Message} {t : Session Bench}
    (hrun : (Session.messageOf r).run s = (.ok m, t)) : m.id = r.id.getD "" := by
  rw [Session.messageOf, Call.run_bind] at hrun
  rcases hlabels : (Session.labelsOf false (r.labelIds.getD [])).run s with ⟨failure | found, u⟩ <;>
    rw [hlabels] at hrun
  · cases hrun
  · obtain ⟨labels, _ | ⟨category, _ | ⟨second, rest⟩⟩⟩ := found
    · cases hrun
      rfl
    · cases hrun
      rfl
    · cases hrun

/-- Messages that were read one by one are all there, and have the ids of what was read. -/
theorem mapM_message_ok (h : Twins store s t) {ids : List String} {ms : List Message}
    {u : Session Bench} (hrun : (ids.mapM Session.message).run s = (.ok ms, u)) :
    ∃ rs, ids.mapM store.lookUp = .ok rs ∧
      ms.map (·.id) = rs.map fun r : Message.Resource => r.id.getD "" := by
  induction ids generalizing s t u ms with
  | nil =>
    cases hrun
    exact ⟨[], rfl, rfl⟩
  | cons id ids ih =>
    rw [List.mapM_cons, Call.run_bind] at hrun
    rcases hm : (Session.message id).run s with ⟨other | m, v⟩ <;> rw [hm] at hrun
    · cases hrun
    · have hread := hm
      rw [Session.message, Call.run_bind, h.left.getMessage_run] at hread
      cases hr : store.lookUp id with
      | error other =>
        rw [hr] at hread
        cases hread
      | ok r =>
        rw [hr] at hread
        obtain ⟨_, -, hnext⟩ := (message hr).ok h hm
        dsimp only at hrun
        rw [Call.run_bind] at hrun
        rcases hms : (ids.mapM Session.message).run v with ⟨other | rest, w⟩ <;> rw [hms] at hrun
        · cases hrun
        · cases hrun
          obtain ⟨rs, hrs, hids⟩ := ih hnext hms
          refine ⟨r :: rs, by rw [List.mapM_cons, hr, hrs]; rfl, ?_⟩
          rw [List.map_cons, List.map_cons, hids, id_of_messageOf hread]

/-- A use of the clock in one of the sessions makes no difference. -/
theorem clock_right {α β : Type} {x : Op Bench β} (use : StateM Bench α) {f : α → Op Bench β}
    (huse : ∀ b, (use b).2.store = b.store) (hnext : ∀ a, Call.Agree (Twins store) x (f a)) :
    Call.Agree (Twins store) x (onClock use >>= f) := by
  refine .thenRight fun s t h => ⟨(use t.outside).1, _, rfl, ?_, hnext _⟩
  have hstore := huse t.outside
  exact ⟨h.left, hstore.symm ▸ h.right, h.directory, h.entities, hstore.symm ▸ h.calls⟩

/-- A batch agrees with its messages one by one. -/
theorem fetchBatch (ids : List String) :
    Call.Agree (Twins store) (ids.mapM Session.message) (Session.fetchBatch ids) := by
  refine .thenRight fun s t h => ⟨t, t, rfl, h, ?_⟩
  refine clock_right Clock.now (fun _ => rfl) fun started => ?_
  intro s t h
  rw [Call.run_bind, h.right.getMessages_run]
  cases hids : ids.mapM store.lookUp with
  | error failure =>
    -- A message is missing, and one by one its turn comes as well.
    rcases hms : (ids.mapM Session.message).run s with ⟨other | ms, u⟩
    · trivial
    · obtain ⟨rs, hrs, -⟩ := mapM_message_ok h hms
      cases hids.symm.trans hrs
  | ok rs =>
    rw [← bind_pure (ids.mapM Session.message)]
    refine ((mapM_message hids).bind fun ms => ?_) s _ (h.logged_right (r := .getMessages ids) rfl)
    refine clock_right Clock.now (fun _ => rfl) fun now => ?_
    dsimp only
    split
    · exact clock_right (Clock.sleep _) (fun _ => rfl) fun _ => .pure ms
    · exact .pure ms

/-- Batches agree with their messages one by one. -/
theorem mapM_fetchBatch (batches : List (List String)) :
    Call.Agree (Twins store) (batches.flatten.mapM Session.message)
      (do return (← batches.mapM Session.fetchBatch).flatten) := by
  induction batches with
  | nil => exact .pure []
  | cons ids batches ih =>
    -- Both have read `ms` when the rest of the batches begins.
    have hrest : ∀ ms, Call.Agree (Twins store)
        (batches.flatten.mapM Session.message >>= fun rest => pure (ms ++ rest))
        (batches.mapM Session.fetchBatch >>= fun rest => pure (ms ++ rest.flatten)) := by
      intro ms
      have hmore := ih.bind fun rest => .pure (ms ++ rest)
      simpa only [bind_assoc, pure_bind] using hmore
    simp only [List.flatten_cons, List.mapM_append, List.mapM_cons, bind_assoc, pure_bind]
    exact (fetchBatch ids).bind hrest

end Twins

/-! ### Fetching -/

/-- The session with another size of batches. -/
def batching (s : Session Bench) (size : Option Nat) : Session Bench :=
  { s with settings := { s.settings with batchSize := size } }

theorem fetch_run_of_single {size : Option Nat} (hsize : size.getD 0 = 0) (ids : List String) :
    (fetch ids).run (s.batching size) = (ids.mapM message).run (s.batching size) := by
  cases size with
  | none => rfl
  | some n =>
    obtain rfl : n = 0 := hsize
    rfl

theorem fetch_run_of_batches {size : Nat} (hsize : 0 < size) (ids : List String) :
    (fetch ids).run (s.batching (some size)) =
      (do return (← (Runs.chunks size ids).mapM fetchBatch).flatten : Op Bench _).run
        (s.batching (some size)) := by
  obtain ⟨n, rfl⟩ := Nat.exists_eq_succ_of_ne_zero hsize.ne'
  rfl

/-- What is found for ids has these ids. -/
theorem ids_of_mapM_lookUp (hown : ∀ id m, store.messages.get? id = some m → m.id = some id)
    {ids : List String} {rs : List Message.Resource} (hrs : ids.mapM store.lookUp = .ok rs) :
    (rs.map fun r => r.id.getD "") = ids := by
  induction ids generalizing rs with
  | nil =>
    obtain rfl := Except.ok.inj hrs
    rfl
  | cons id ids ih =>
    rw [List.mapM_cons, Store.lookUp] at hrs
    cases hm : store.messages.get? id with
    | none => simp [hm, bind, Except.bind] at hrs
    | some m =>
      cases hrest : ids.mapM store.lookUp with
      | error failure => simp [hm, hrest, bind, Except.bind] at hrs
      | ok rest =>
        rw [hm, hrest] at hrs
        obtain rfl := Except.ok.inj hrs
        rw [List.map_cons, ih hrest, hown id m hm]
        rfl

/-- Fetching messages in batches succeeds exactly when fetching them one by one does. Both then give
the same messages, one for each id in the order of the ids, and are twins afterwards: they asked the
same about labels, and have the same directory and the same loaded labels. -/
theorem fetch_in_batches (hplanned : s.outside.store.planned = .empty)
    (hown : ∀ id m, s.outside.store.messages.get? id = some m → m.id = some id)
    {single : Option Nat} (hsingle : single = none ∨ single = some 0) {size : Nat}
    (hsize : 0 < size) (ids : List String) :
    let batched := (fetch ids).run (s.batching (some size))
    let singly := (fetch ids).run (s.batching single)
    (∀ ms, batched.1 = .ok ms ↔ singly.1 = .ok ms) ∧
      ∀ ms, batched.1 = .ok ms →
        ms.map (·.id) = ids ∧ Twins s.outside.store singly.2 batched.2 := by
  intro batched singly
  have hover : Over s.outside.store s.outside.store := ⟨rfl, rfl, hplanned⟩
  have htwins : Twins s.outside.store (s.batching single) (s.batching (some size)) :=
    ⟨hover, hover, rfl, rfl, rfl⟩
  have hsingly : singly = (ids.mapM message).run (s.batching single) :=
    fetch_run_of_single (by rcases hsingle with rfl | rfl <;> rfl) ids
  have hbatched : batched = _ := fetch_run_of_batches hsize ids
  have hagree := Twins.mapM_fetchBatch (Runs.chunks size ids) _ _ htwins
  rw [Runs.flatten_chunks, ← hsingly, ← hbatched] at hagree
  rcases hs : singly with ⟨failure | ms, u⟩ <;> rcases hb : batched with ⟨other | ms', v⟩ <;>
    rw [hs, hb] at hagree
  · exact ⟨fun _ => by simp, by simp⟩
  · exact hagree.elim
  · exact hagree.elim
  · obtain ⟨rfl, hleft⟩ := hagree
    obtain ⟨rs, hrs, hids⟩ := Twins.mapM_message_ok htwins (hsingly.symm.trans hs)
    refine ⟨fun _ => Iff.rfl, fun other hother => ?_⟩
    obtain rfl := Except.ok.inj hother
    exact ⟨hids.trans (ids_of_mapM_lookUp hown hrs), hleft⟩

/-- Three messages in batches of two: the label of the last one is only known after a refresh in the
middle of the second batch. -/
theorem fetch_in_batches_refreshing :
    let message (id : String) (labels : List String) : Message.Resource :=
      { id := some id, labelIds := some labels }
    let store := (((Store.initial.seedLabel "Work" (some "Label_1")).2.seedMessage
      (message "a" ["INBOX"])).seedMessage (message "b" [])).seedMessage (message "c" ["Label_1"])
    let s : Session Bench := { outside := { store } }
    let ids := ["a", "b", "c"]
    let batched := (fetch ids).run (s.batching (some 2))
    let singly := (fetch ids).run (s.batching none)
    ∃ ms, batched.1 = .ok ms ∧ singly.1 = .ok ms ∧ ms.map (·.id) = ids ∧
      Twins store singly.2 batched.2 ∧
      batched.2.outside.store.calls = [.getMessages ["a", "b"], .getLabel "INBOX",
        .getMessages ["c"], .listLabels, .getLabel "Label_1"] ∧
      singly.2.outside.store.calls = [.getMessage "a", .getLabel "INBOX", .getMessage "b",
        .getMessage "c", .listLabels, .getLabel "Label_1"] := by
  intro message store s ids batched singly
  have hown : ∀ id m, store.messages.get? id = some m → m.id = some id := by
    have hentries : ∀ entry ∈ store.messages.entries, entry.2.id = some entry.1 := by
      decide +kernel
    exact fun id m h => hentries _ (Table.mem_of_get? h)
  obtain ⟨ms, t, hrun⟩ : ∃ ms t, batched = (.ok ms, t) := Call.exists_ok (by decide +kernel)
  obtain ⟨hiff, hdone⟩ := fetch_in_batches (s := s) rfl hown (.inl rfl) (by decide : 0 < 2) ids
  have hok : batched.1 = .ok ms := by rw [hrun]
  exact ⟨ms, hok, (hiff ms).mp hok, (hdone ms hok).1, (hdone ms hok).2, by decide +kernel,
    by decide +kernel⟩

end Mailroom.Session
