import Mailroom.Proofs.Session.Coherence
import Mailroom.Session.Query

/-! Snapshots of messages. A message that is read has the labels and the category that the store has
for it, and that it cannot be read for its categories means that the store has several for it.
Reading and listing messages change nothing in the store. -/

namespace Mailroom.Session

open Label (isCategoryId EntityRef)
open Remote (Bench MailService Store)

variable {s t u : Session Bench}

/-! ### Labels of a message -/

/-- Labels that stand for some ids, those of categories apart. -/
def Splits (s : Session Bench) (ids : List String) (labels categories : List EntityRef) : Prop :=
  labels.map s.entityId = ids.filter (!isCategoryId ·) ∧
    categories.map s.entityId = ids.filter isCategoryId

theorem labelsOf_ends (ids : List String) : ∀ (asked : Bool) {s : Session Bench}, s.Coherent →
    Call.Ends (labelsOf asked ids) s (fun refs t => s.Reads t ∧ t.Splits ids refs.1 refs.2)
      s.Refuses := by
  induction ids with
  | nil => exact fun _ _ hs => ⟨hs.reads, rfl, rfl⟩
  | cons id rest ih =>
    intro asked s hs
    have hgo : ∀ known : Bool, ∀ t, s.Reads t → Call.Ends (do
        let e ← entity (← nodeById id)
        let refs ← labelsOf (asked || !known) rest
        if (← get).entityKind e = .category then return (refs.1, e :: refs.2)
        else return (e :: refs.1, refs.2)) t
        (fun refs u => s.Reads u ∧ u.Splits (id :: rest) refs.1 refs.2) s.Refuses := by
      intro known t ht
      refine ht.andThen (nodeById_ends ht.coherent id) fun r _ hr => ?_
      obtain ⟨rfl, hid⟩ := hr
      refine ht.andThen (entity_ends ht.coherent r) fun e u hu => ?_
      obtain ⟨hu, x, hx, hxid⟩ := hu
      refine (ht.trans hu).andThen (ih (asked || !known) hu.coherent) fun refs v hv => ?_
      obtain ⟨hv, hlabels, hcategories⟩ := hv
      -- The labels that are loaded for the rest of the ids leave this one in its place.
      have he : v.entityId e = id :=
        (entityId_of_entity? (hv.entities e x hx)).trans (hxid.trans hid)
      have hkind := hv.coherent.entities e
      rw [he] at hkind
      refine Call.Ends.getThen ?_
      have hreads := (ht.trans hu).trans hv
      split
      case isTrue hcategory =>
        exact ⟨hreads, by simp [hlabels, hkind.mp hcategory], by
          simp [hcategories, he, hkind.mp hcategory]⟩
      case isFalse hother =>
        exact ⟨hreads, by simp [hlabels, he, mt hkind.mpr hother], by
          simp [hcategories, mt hkind.mpr hother]⟩
    rw [labelsOf]
    refine Call.Ends.getThen ?_
    dsimp only
    split
    · exact hs.reads.andThen (refresh_ends hs) fun _ t ht => hgo _ t ht
    · exact hgo _ s hs.reads

/-! ### Messages -/

/-- A snapshot of a message as the store has it: its labels and its category are those that the
store has for the message now. -/
def Current (s : Session Bench) (m : Message) : Prop :=
  s.Splits (s.outside.store.labelIds m.id) m.labels m.category.toList

/-- Whether a message with these labels carries at most one category. -/
def Single (ids : List String) : Prop := ids.countP isCategoryId ≤ 1

instance (ids : List String) : Decidable (Single ids) := inferInstanceAs (Decidable (_ ≤ _))

/-- A failure while messages were read; it is one of reading them only if one of them has several
categories. -/
def FailsReading (s : Session Bench) (ids : List String) (failure : Failure) (t : Session Bench) :
    Prop :=
  s.Reads t ∧ ((∀ id ∈ ids, Single (s.outside.store.labelIds id)) →
    failure.kind? ≠ some .parse)

theorem messageOf_ends (hs : s.Coherent) {id : String} {r : Message.Resource}
    (hr : s.outside.store.Gives id r) : Call.Ends (messageOf r) s
      (fun m t => s.Reads t ∧ m.id = id ∧ t.Current m) (s.FailsReading [id]) := by
  obtain ⟨hid, hlabels⟩ := hr
  rw [messageOf, hlabels]
  refine ((labelsOf_ends _ false hs).imp (fun _ _ h => h) fun _ _ h => ?_).andThen
    fun refs t ht => ?_
  · exact ⟨h.1, fun _ => h.2⟩
  obtain ⟨labels, categories⟩ := refs
  obtain ⟨ht, hsplits⟩ := ht
  have hcurrent : ∀ category : Option EntityRef, category.toList = categories →
      (Message.ofResource r labels category).id = id ∧
        t.Current (Message.ofResource r labels category) := by
    intro category hcategory
    have hmessage : (Message.ofResource r labels category).id = id := by
      simp [Message.ofResource, hid]
    refine ⟨hmessage, ?_⟩
    rw [Current, hmessage, ht.store.labelIds, show (Message.ofResource r labels category).category =
      category from rfl, hcategory]
    exact hsplits
  cases categories with
  | nil => exact ⟨ht, hcurrent none rfl⟩
  | cons first categories =>
    cases categories with
    | nil => exact ⟨ht, hcurrent (some first) rfl⟩
    | cons second categories =>
      refine ⟨ht, fun hone => absurd (hone id (List.mem_singleton_self id)) ?_⟩
      have hlength := congrArg List.length hsplits.2
      rw [List.length_map, ← List.countP_eq_length_filter] at hlength
      simp only [Single, List.length_cons, Option.getD_some] at hlength ⊢
      omega

theorem Reads.failsReading (h : s.Reads t) {ids ids' : List String} (hids : ids ⊆ ids')
    {failure : Failure} (h' : t.FailsReading ids failure u) : s.FailsReading ids' failure u := by
  refine ⟨h.trans h'.1, fun hone => h'.2 fun id hid => ?_⟩
  rw [h.store.labelIds]
  exact hone id (hids hid)

theorem message_ends (hs : s.Coherent) (id : String) : Call.Ends (message id) s
    (fun m t => s.Reads t ∧ m.id = id ∧ t.Current m) (s.FailsReading [id]) := by
  have hget : Call.Ends (onOutside (MailService.getMessage (σ := Bench) id)) s
      (fun r t => s.Reads t ∧ s.outside.store.Gives id r) (s.FailsReading [id]) :=
    ends_onStore ((Store.getMessage_ends hs.store id).imp
      (fun _ _ h => ⟨hs.reads_withStore h.1, h.2⟩)
      fun _ _ h => ⟨hs.reads_withStore h.1, fun _ => h.2⟩)
  refine hget.andThen fun r t ⟨ht, hr⟩ => ?_
  exact (messageOf_ends ht.coherent (ht.store.gives hr)).imp (fun _ _ h => ⟨ht.trans h.1, h.2⟩)
    fun _ _ => ht.failsReading (List.Subset.refl _)

/-! ### Batches -/

theorem now_ends (hs : s.Coherent) {failed : Failure → Session Bench → Prop} :
    Call.Ends (onClock (Clock.now (σ := Bench))) s (fun _ => s.Reads) failed :=
  ⟨⟨hs.stands, hs.nodes, hs.entities, hs.store⟩, fun _ _ h => h, fun _ h => ⟨h, rfl⟩, .refl _⟩

theorem sleep_ends (hs : s.Coherent) (delay : Rat) {failed : Failure → Session Bench → Prop} :
    Call.Ends (onClock (Clock.sleep (σ := Bench) delay)) s (fun _ => s.Reads) failed :=
  ⟨⟨hs.stands, hs.nodes, hs.entities, hs.store⟩, fun _ _ h => h, fun _ h => ⟨h, rfl⟩, .refl _⟩

theorem fetchBatch_ends (hs : s.Coherent) (ids : List String) :
    Call.Ends (fetchBatch ids) s (fun _ => s.Reads) (s.FailsReading ids) := by
  rw [fetchBatch]
  refine Call.Ends.getThen ?_
  refine (now_ends hs).andThen fun started t ht => ?_
  have hget : Call.Ends (onOutside (MailService.getMessages (σ := Bench) ids)) t
      (fun rs u => t.Reads u ∧ ∀ r ∈ rs, ∃ id ∈ ids, t.outside.store.Gives id r)
      (s.FailsReading ids) :=
    ends_onStore ((Store.getMessages_ends ht.coherent.store ids).imp
      (fun _ _ h => ⟨ht.coherent.reads_withStore h.1, h.2⟩)
      fun _ _ h => ⟨ht.trans (ht.coherent.reads_withStore h.1), fun _ => h.2⟩)
  refine hget.andThen fun rs u ⟨hu, hrs⟩ => ?_
  have hmessages : Call.Ends (rs.mapM messageOf) u (fun _ => t.Reads) (t.FailsReading ids) := by
    refine Call.Ends.mapM_keeps hu fun r hr v hv => ?_
    obtain ⟨id, hid, hgives⟩ := hrs r hr
    exact (messageOf_ends hv.coherent (hv.store.gives hgives)).imp (fun _ _ h => hv.trans h.1)
      fun _ _ => hv.failsReading (by simpa using hid)
  refine (hmessages.imp (fun _ _ h => h) fun _ _ => ht.failsReading (List.Subset.refl _)).andThen
    fun ms v hv => ?_
  refine (now_ends hv.coherent).andThen fun ended w hw => ?_
  have hw := (ht.trans hv).trans hw
  dsimp only
  split
  · exact (sleep_ends hw.coherent _).andThen fun _ _ hend => hw.trans hend
  · exact hw

/-- Fetching messages fails because one cannot be read only if one of them has several categories.
-/
theorem fetch_ends (hs : s.Coherent) (ids : List String) :
    Call.Ends (fetch ids) s (fun _ => s.Reads) (s.FailsReading ids) := by
  have hsingly : Call.Ends (ids.mapM message) s (fun _ => s.Reads) (s.FailsReading ids) := by
    refine Call.Ends.mapM_keeps hs.reads fun id hid t ht => ?_
    exact (message_ends ht.coherent id).imp (fun _ _ h => ht.trans h.1)
      fun _ _ => ht.failsReading (by simpa using hid)
  refine Call.Ends.getThen ?_
  rcases s.settings.batchSize with _ | _ | n
  case none => exact hsingly
  case some.zero => exact hsingly
  case some.succ =>
    have hbatches : Call.Ends ((Runs.chunks (n + 1) ids).mapM fetchBatch) s (fun _ => s.Reads)
        (s.FailsReading ids) := by
      refine Call.Ends.mapM_keeps hs.reads fun chunk hchunk t ht => ?_
      refine (fetchBatch_ends ht.coherent chunk).imp (fun _ _ => ht.trans)
        fun _ _ => ht.failsReading fun id hid => ?_
      rw [← Runs.flatten_chunks (n + 1) ids]
      exact List.mem_flatten.mpr ⟨chunk, hchunk, hid⟩
    exact hbatches.andThen fun _ _ h => h

/-! ### Listings -/

theorem listMessages_ends (hs : s.Coherent) (q : Remote.ListQuery) :
    Call.Ends (onOutside (MailService.listMessages (σ := Bench) q)) s (fun _ => s.Reads)
      fun _ => s.Reads :=
  ends_onStore ((Store.listMessages_ends hs.store q).imp (fun _ _ => hs.reads_withStore)
    fun _ _ h => hs.reads_withStore h.1)

theorem readPages_ends (query : Remote.ListQuery) (limit : Option Rat) (budget : Nat) :
    ∀ {s : Session Bench} (ids : List String) (token : Option String), s.Coherent →
      Call.Ends (readPages query limit budget ids token) s (fun _ => s.Reads) fun _ => s.Reads := by
  induction budget with
  | zero =>
    intro s ids token hs
    rw [readPages]
    split
    · exact hs.reads
    · exact hs.reads
  | succ budget ih =>
    intro s ids token hs
    rw [readPages]
    split
    · exact hs.reads
    · refine (listMessages_ends hs _).andThen fun page t ht => ?_
      exact (ih _ _ ht.coherent).imp (fun _ _ => ht.trans) fun _ _ => ht.trans

/-- Listing the messages of a query reads only, even if it fails. -/
theorem messageIds_ends (hs : s.Coherent) (q : Query) :
    Call.Ends (messageIds q) s (fun _ => s.Reads) fun _ => s.Reads := by
  rw [messageIds]
  refine Call.Ends.getThen ?_
  dsimp only
  cases q.searchText s.settings with
  | error failure => exact hs.reads
  | ok search =>
    refine Call.Ends.bind ?_
    refine (listMessages_ends hs _).andThen fun page t ht => ?_
    refine Call.Ends.andThen ((readPages_ends _ _ _ _ _ ht.coherent).imp (fun _ _ => ht.trans)
      fun _ _ => ht.trans) fun ids u hu => ?_
    split
    · exact hu
    · exact hu

end Mailroom.Session
