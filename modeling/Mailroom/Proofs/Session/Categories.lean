import Mailroom.Proofs.Session.Mutation
import Mailroom.Proofs.Session.Scope

/-! One category for each message. Mutations of a message leave it with at most one category, and so
do bulk mutations that add no category. A bulk change of category only adds the new one: a message
that is filed elsewhere then has two, and can be read no more. But for that, a store in which every
message has at most one category stays so, whatever succeeds or fails, and messages can be read. -/

namespace Mailroom.Session

open Label (isCategoryId Directory EntityRef NodeRef)
open Remote (Bench LabelChange Store)

/-- Labels that may be added to a message that carries others: a category is added only if there is
no other one, neither before nor among the new labels. -/
def Fits (added ids : List String) : Prop :=
  ∀ c ∈ added, isCategoryId c = true →
    ∀ other ∈ ids ++ added, isCategoryId other = true → other = c

instance (added ids : List String) : Decidable (Fits added ids) :=
  inferInstanceAs (Decidable (∀ c ∈ added, _ → ∀ other ∈ ids ++ added, _ → other = c))

/-- A mailbox that was just opened on a store in which some messages carry at most one category. -/
structure Opened (kept : String → Prop) (s : Session Bench) : Prop where
  directory : s.directory = .initial
  entities : s.entities = #[]
  store : s.outside.store.Sound
  single : ∀ id, kept id → Single (s.outside.store.labelIds id)

/-- Sessions that come of one by reading and by mutations of messages, successful or not. A bulk
mutation is made once and used at any later time, through scopes in any state, or right away. What
it adds by choice of its caller fits the messages it is performed on, as far as they are among the
kept ones. -/
inductive Reached (kept : String → Prop) (first : Session Bench) : Session Bench → Prop
  | start : Reached kept first first
  | refreshed {s} : Reached kept first s → Reached kept first (refresh.run s).2
  | loaded {s} (r : NodeRef) : Reached kept first s → Reached kept first ((entity r).run s).2
  | read {s} (id : String) : Reached kept first s → Reached kept first ((message id).run s).2
  | fetched {s} (ids : List String) :
      Reached kept first s → Reached kept first ((fetch ids).run s).2
  | mutated {s} (m : Mutation) :
      Reached kept first s → m.Proper s → Reached kept first (m.op.run s).2
  | entered {made s q b a} (scope : Scope) :
      Reached kept first made → BulkMutation.action made q b = .ok a → Reached kept first s →
      Reached kept first ((Scoped.enter a).run ⟨scope, s⟩).2.outside
  | exited {made s q b a} (scope : Scope) :
      Reached kept first made → BulkMutation.action made q b = .ok a → Reached kept first s →
      (scope.armed = true → ∀ id ∈ scope.ids, kept id →
        Fits (b.chosen made) (s.outside.store.labelIds id)) →
      Reached kept first ((Scoped.exit a).run ⟨scope, s⟩).2.outside
  | executed {made s q b a} (scope : Scope) :
      Reached kept first made → BulkMutation.action made q b = .ok a → Reached kept first s →
      (∀ ids t, a.listing.run s = (.ok ids, t) → ∀ id ∈ ids, kept id →
        Fits (b.chosen made) (s.outside.store.labelIds id)) →
      Reached kept first ((Scoped.execute a).run ⟨scope, s⟩).2.outside

variable {kept : String → Prop} {first s t : Session Bench}

theorem Fits.suits {added ids : List String} (h : Fits added ids) (hone : Single ids)
    {c : LabelChange} (hc : ∀ x ∈ c.add.getD [], isCategoryId x = true → x ∈ added) :
    Suits c ids := by
  intro x y ⟨hx, _⟩ ⟨hy, _⟩ hxc hyc
  have hmem : ∀ z, z ∈ ids ∨ z ∈ c.add.getD [] → isCategoryId z = true → z ∈ ids ++ added :=
    fun z hz hzc => List.mem_append.mpr (hz.imp_right fun hadd => hc z hadd hzc)
  rcases hx with hxi | hxa
  · rcases hy with hyi | hya
    · exact hone.eq hxi hyi hxc hyc
    · exact h y (hc y hya hyc) hyc x (hmem x (.inl hxi) hxc) hxc
  · exact (h x (hc x hxa hxc) hxc y (hmem y hy hyc) hyc).symm

/-! ### Steps -/

/-- What every step keeps: coherence, and at most one category on each kept message. -/
def Tidy (kept : String → Prop) (s : Session Bench) : Prop :=
  s.Coherent ∧ ∀ id, kept id → Single (s.outside.store.labelIds id)

theorem Opened.tidy (h : Opened kept s) : s.Tidy kept :=
  ⟨.fresh h.directory h.entities h.store, h.single⟩

theorem Reads.tidy (h : s.Reads t) (hs : s.Tidy kept) : t.Tidy kept := by
  refine ⟨h.coherent, fun id hid => ?_⟩
  rw [h.store.labelIds]
  exact hs.2 id hid

theorem Alters.tidy {c : LabelChange} {ids : List String} (h : s.Alters c ids t)
    (hs : s.Tidy kept)
    (hsuits : ∀ id ∈ ids, kept id → Suits c (s.outside.store.labelIds id)) : t.Tidy kept := by
  obtain hreads | ⟨hcoherent, hstore⟩ := h
  · exact hreads.tidy hs
  · refine ⟨hcoherent, fun id hid => ?_⟩
    rw [hstore.labelIds]
    exact single_changeAll (hs.2 id hid) fun hmem => hsuits id hmem hid

theorem Mutation.tidy (hs : s.Tidy kept) {m : Mutation} (hm : m.Proper s) :
    (m.op.run s).2.Tidy kept := by
  obtain ⟨c, hc, hends⟩ := m.ends hs.1 hm
  have halters := (hends.imp (fun _ _ h => h) fun _ _ h => h.1).state
  refine halters.tidy hs fun id hmem hid => ?_
  obtain rfl := List.mem_singleton.mp hmem
  exact hc (hs.2 _ hid)

theorem BulkMutation.tidy {made : Session Bench} (hmade : made.Coherent) {q : Query}
    {b : BulkMutation} {a : BulkAction (Session Bench)} (ha : b.action made q = .ok a)
    (hs : s.Tidy kept) {ids : List String}
    (hfits : ∀ id ∈ ids, kept id → Fits (b.chosen made) (s.outside.store.labelIds id)) :
    ((a.perform ids).run s).2.Tidy kept := by
  obtain ⟨c, rfl, hc⟩ := action_eq hmade ha
  have halters : s.Alters c ids (((bulkChange q c).perform ids).run s).2 :=
    ((bulkChange_ends hs.1 q c ids).imp (fun _ _ h => .inr h) fun _ _ h => .inl h.1).state
  exact halters.tidy hs fun id hmem hid => (hfits id hmem hid).suits (hs.2 id hid) hc

theorem listing_reads (hs : s.Coherent) {made : Session Bench} (hmade : made.Coherent) {q : Query}
    {b : BulkMutation} {a : BulkAction (Session Bench)} (ha : b.action made q = .ok a) :
    s.Reads (a.listing.run s).2 := by
  obtain ⟨c, rfl, -⟩ := BulkMutation.action_eq hmade ha
  exact (messageIds_ends hs q).state

/-! ### Runs -/

theorem Reached.tidy (hfirst : Opened kept first) (h : Reached kept first t) :
    t.Tidy kept := by
  induction h with
  | start => exact hfirst.tidy
  | refreshed _ ih =>
    exact (((refresh_ends ih.1).imp (fun _ _ h => h) fun _ _ h => h.1).state).tidy ih
  | loaded r _ ih =>
    exact (((entity_ends ih.1 r).imp (fun _ _ h => h.1) fun _ _ h => h.1).state).tidy ih
  | read id _ ih =>
    exact (((message_ends ih.1 id).imp (fun _ _ h => h.1) fun _ _ h => h.1).state).tidy ih
  | fetched ids _ ih =>
    exact (((fetch_ends ih.1 ids).imp (fun _ _ h => h) fun _ _ h => h.1).state).tidy ih
  | mutated m _ hm ih => exact m.tidy ih hm
  | entered scope _ ha _ ihmade ih =>
    rw [Scoped.enter_outside]
    exact (listing_reads ih.1 ihmade.1 ha).tidy ih
  | exited scope _ ha _ hfits ihmade ih =>
    rw [Scoped.exit_outside]
    split
    case isTrue harmed => exact BulkMutation.tidy ihmade.1 ha ih (hfits harmed)
    case isFalse => exact ih
  | @executed made s q b a scope _ ha _ hfits ihmade ih =>
    have hreads := listing_reads ih.1 ihmade.1 ha
    rw [Scoped.execute_outside]
    rcases hlist : a.listing.run s with ⟨failure | ids, t⟩ <;> rw [hlist] at hreads
    · exact hreads.tidy ih
    · refine BulkMutation.tidy ihmade.1 ha (hreads.tidy ih) fun id hmem hid => ?_
      rw [hreads.store.labelIds]
      exact hfits ids t hlist id hmem hid

/-- One category for each message. In a store where the kept messages carry at most one category
each, they still do after any mutations, successful or not, as long as what is added in bulk to one
of them fits it. None of them fails to be read for having several categories, neither when it is
fetched nor after a mutation of it, and what is read is up to date. A bulk change of category only
adds: the messages it is performed on have the labels they had and the new category. -/
theorem single_category_over_mutations (hfirst : Opened kept first) (h : Reached kept first t) :
    (∀ id, kept id → Single (t.outside.store.labelIds id)) ∧
    (∀ id, kept id → ∀ failure, ((message id).run t).1 = .error failure →
      failure.kind? ≠ some .parse) ∧
    (∀ ids, (∀ id ∈ ids, kept id) → ∀ failure, ((fetch ids).run t).1 = .error failure →
      failure.kind? ≠ some .parse) ∧
    (∀ m : Mutation, m.Proper t → kept m.message.id → ∀ failure, (m.op.run t).1 = .error failure →
      failure.kind? ≠ some .parse) ∧
    (∀ id m u, (message id).run t = (.ok m, u) → m.id = id ∧ u.Current m) ∧
    ∀ q category a ids u, bulkCategory t q category = .ok a →
      (a.perform ids).run t = (.ok (), u) → isCategoryId (category.id t) = true ∧
        ∀ id ∈ ids, t.outside.store.messages.has id = true → ∀ x,
          x ∈ u.outside.store.labelIds id ↔
            x ∈ t.outside.store.labelIds id ∨ x = category.id t := by
  obtain ⟨hcoherent, hsingle⟩ := h.tidy hfirst
  refine ⟨hsingle, fun id hid failure hrun => ?_, fun ids hids failure hrun => ?_,
    fun m hm hid failure hrun => ?_, fun id m u hrun => ?_, fun q category a ids u ha hrun => ?_⟩
  · refine ((message_ends hcoherent id).error hrun).2 fun other hother => ?_
    exact hsingle other (List.mem_singleton.mp hother ▸ hid)
  · exact ((fetch_ends hcoherent ids).error hrun).2 fun id hmem => hsingle id (hids id hmem)
  · obtain ⟨c, hc, hends⟩ := m.ends hcoherent hm
    refine (hends.error hrun).2 fun other hother => ?_
    obtain rfl := List.mem_singleton.mp hother
    exact single_changeAll (hsingle _ hid) fun _ => hc (hsingle _ hid)
  · exact ((message_ends hcoherent id).ok hrun).2
  · obtain ⟨hcategory, rfl⟩ := bulkCategory_eq_ok.mp ha
    have hstore := ((bulkChange_ends hcoherent q _ ids).ok hrun).2
    refine ⟨isCategoryId_of_isCategory hcoherent hcategory, fun id hmem hhas x => ?_⟩
    rw [hstore.labelIds, (Store.labelIds_changeAll_of_mem hmem hhas).2]
    simp

/-- Two messages are filed in bulk under a category that one of them has already, and the other one
is then filed under another category. -/
theorem single_category_over_mutations_moved :
    let m1 : Message.Resource := { id := some "m1", labelIds := some ["INBOX"] }
    let m2 : Message.Resource := { id := some "m2", labelIds := some ["CATEGORY_PROMOTIONS"] }
    let store : Store := (Store.initial.seedMessage m1).seedMessage m2
    let first : Session Bench := { outside := { store } }
    let kept (id : String) : Prop := id = "m1" ∨ id = "m2"
    let s := ((entity (Directory.category .promotions)).run first).2
    let t := ((entity (Directory.category .social)).run s).2
    ∃ a m u, bulkCategory t (Query.start t.settings) (.entity ⟨0⟩) = .ok a ∧
      (message "m1").run ((Scoped.execute a).run ⟨{}, t⟩).2.outside = (.ok m, u) ∧
      Opened kept first ∧ Reached kept first ((changeCategory m (.entity ⟨1⟩)).run u).2 ∧
      ∀ id, kept id →
        Single (((changeCategory m (.entity ⟨1⟩)).run u).2.outside.store.labelIds id) := by
  intro m1 m2 store first kept s t
  let b : BulkMutation := .changeCategory (.entity ⟨0⟩)
  let a : BulkAction (Session Bench) :=
    bulkChange (Query.start t.settings) { add := some [(Thing.entity ⟨0⟩).id t] }
  have hcategory : (Thing.entity ⟨0⟩).isCategory t = true := by decide +kernel
  have ha : b.action t (Query.start t.settings) = .ok a :=
    bulkCategory_eq_ok.mpr ⟨hcategory, rfl⟩
  have hsound : store.Sound :=
    Store.seedMessage_sound (Store.seedMessage_sound Store.initial_sound _) _
  have hsingle : ∀ id, kept id → Single (store.labelIds id) := by
    rintro id (rfl | rfl) <;> decide +kernel
  have hfits : ∀ id, kept id → Fits (b.chosen t) (t.outside.store.labelIds id) := by
    rintro id (rfl | rfl) <;> decide +kernel
  have hopened : Opened kept first := ⟨rfl, rfl, hsound, hsingle⟩
  have ht : Reached kept first t := (Reached.start.loaded _).loaded _
  have hbulk : Reached kept first ((Scoped.execute a).run ⟨{}, t⟩).2.outside :=
    ht.executed {} ha ht fun _ _ _ id _ hid => hfits id hid
  have hread : ((message "m1").run ((Scoped.execute a).run ⟨{}, t⟩).2.outside).1.toOption.isSome =
      true := by decide +kernel
  obtain ⟨m, u, hrun⟩ := Call.exists_ok hread
  have hu : Reached kept first u := by
    have hnext := hbulk.read "m1"
    rwa [hrun] at hnext
  obtain ⟨-, -, -, -, hcurrent, -⟩ := single_category_over_mutations hopened hbulk
  have hmoved := hu.mutated (.changeCategory m (.entity ⟨1⟩)) (hcurrent "m1" m u hrun).2
  exact ⟨a, m, u, ha, hrun, hopened, hmoved, (single_category_over_mutations hopened hmoved).1⟩

/-- A bulk change of category only adds: a message that is filed under another category has two
then, and cannot be read. -/
theorem bulk_category_beside_another :
    let m1 : Message.Resource := { id := some "m1", labelIds := some ["INBOX", "CATEGORY_SOCIAL"] }
    let store : Store := Store.initial.seedMessage m1
    let first : Session Bench := { outside := { store } }
    let s := ((entity (Directory.category .promotions)).run first).2
    ∃ a, Opened (fun _ => True) first ∧
      bulkCategory s (Query.start s.settings) (.entity ⟨0⟩) = .ok a ∧
      let (affected, t) := (Scoped.execute a).run ⟨{}, s⟩
      affected.toOption = some 1 ∧ ¬Single (t.outside.outside.store.labelIds "m1") ∧
      (((message "m1").run t.outside).1.mapError Failure.message).map (fun _ => ()) =
        .error ("Failed to parse message m1: expected at most one category, " ++
          "got Social, Promotions") := by
  intro m1 store first s
  have hsound : store.Sound := Store.seedMessage_sound Store.initial_sound _
  have hsingle : ∀ id, Single (store.labelIds id) := by
    intro id
    rw [Store.labelIds_seedMessage _ _ rfl]
    split
    · decide +kernel
    · exact (by decide : Single [])
  have hopened : Opened (fun _ => True) first := ⟨rfl, rfl, hsound, fun id _ => hsingle id⟩
  have hcategory : (Thing.entity ⟨0⟩).isCategory s = true := by decide +kernel
  refine ⟨_, hopened, bulkCategory_eq_ok.mpr ⟨hcategory, rfl⟩, ?_, ?_, ?_⟩
  · decide +kernel
  · decide +kernel
  · decide +kernel

end Mailroom.Session
