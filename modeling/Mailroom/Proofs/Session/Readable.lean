import Mailroom.Proofs.Remote.Labels
import Mailroom.Proofs.Session.Reading

/-! Label ids that are always found. The registry has the fixed labels and, after a listing, one
label of the user for every name. So a message is read whose labels are among these and in use; a
system label that is not one of the fixed ones is never found, listed or not, and neither are all
of several labels of the user with one name. -/

namespace Mailroom.Session

open Label (Directory NodeRef Tag isCategoryId isFixedId)
open Remote (Bench LabelRecord MailService Store)

variable {s t : Session Bench} {id : String}

/-- Ids that are found, if not before then after a listing: those of the fixed labels that are in
use and whose names no label of the user has, and those of labels of the user whose names no other
has. -/
inductive Findable (s : Session Bench) : String → Prop
  | fixed {f : NodeRef} : f ∈ Directory.initial.fixed → (s.directory.node f).evicted = false →
      ¬Taken s.outside.store.labels.values f → Findable s (Directory.initial.node f).id
  | user {l : Tag} : l ∈ userLabels s.outside.store.labels.values →
      (∀ m ∈ userLabels s.outside.store.labels.values, m.name = l.name → m = l) → Findable s l.id

/-- Whatever is registered under a fixed label's id while the label is in use is the fixed label. -/
theorem registered_of_living {d : Directory} {listings : List (List Tag)}
    (h : Directory.Stands .initial d listings) {f : NodeRef} (hf : f ∈ Directory.initial.fixed)
    (hliving : (d.node f).evicted = false) :
    d.registry.byId.get? (Directory.initial.node f).id = some f := by
  refine (h.registered f hf).mpr fun last hlast htakes => ?_
  have hmarked := (h.marked f hf).mpr ⟨last, List.mem_of_getLast? hlast, htakes⟩
  exact absurd (hliving.symm.trans hmarked) (by decide)

namespace Findable

/-- A label that is found without a listing is in use. -/
theorem living (h : s.Findable id) (hs : s.Orderly) {r : NodeRef}
    (hr : s.directory.registry.byId.get? id = some r) : (s.directory.node r).evicted = false := by
  obtain ⟨_, hstands⟩ := hs.stands
  cases h with
  | fixed hf hliving _ =>
    have hself := registered_of_living hstands hf hliving
    exact Option.some.inj (hself.symm.trans hr) ▸ hliving
  | @user l hl _ =>
    refine (hs.tended.living r (List.mem_map.mpr ⟨_, Table.mem_of_get? hr, rfl⟩)).resolve_left
      fun hf => ?_
    rw [hstands.based.fixed] at hf
    have hown := (hs.keyed.of_get? hr).2
    rw [hstands.based.node_id hf] at hown
    exact Directory.free_userLabels _ l hl r hf hown.symm

/-- After a listing a label is found, and it is in use. -/
theorem relisted (h : s.Findable id) (hs : s.Orderly) (hstore : s.outside.store.Neat) :
    let d := (refreshed s.directory s.outside.store.labels.values).2
    ∃ r, d.registry.byId.get? id = some r ∧ (d.node r).evicted = false := by
  intro d
  obtain ⟨listings, hstands⟩ := hs.stands
  cases h with
  | @fixed f hf hliving hfree =>
    have hafter : Directory.Stands .initial d _ := hstands.refreshed _
    have hunmarked : (d.node f).evicted = false := by
      rw [Bool.eq_false_iff, Ne, hafter.marked f hf]
      rintro ⟨labels, hmem, htakes⟩
      rcases List.mem_append.mp hmem with hbefore | hnow
      · have hmarked := (hstands.marked f hf).mpr ⟨labels, hbefore, htakes⟩
        exact absurd (hliving.symm.trans hmarked) (by decide)
      · obtain rfl := List.mem_singleton.mp hnow
        exact hfree htakes
    exact ⟨f, registered_of_living hafter hf hunmarked, hunmarked⟩
  | user hl hname => exact hs.tended.finds hstands hstore hl hname

end Findable

/-- Ids that are found are looked up, in a store that has labels for them and no failure to come. -/
theorem Reading.all_found {ids : List String} (h : s.Reading ids t) (hs : s.Orderly)
    (hstore : s.outside.store.Neat) (hplanned : s.outside.store.planned = .empty)
    (hids : ∀ id ∈ ids, s.Findable id ∧ s.outside.store.labels.has id = true) (failure : Failure) :
    ¬s.Unread ids t failure := by
  have hquiet : ∀ method, s.outside.store.planned.get? method = none := by
    rw [hplanned]
    exact fun _ => rfl
  -- The directory in the end is the one of before, or the one after the listing.
  have hend : ∀ id ∈ ids, (s.Relisted t → t.registers id = true) ∧ ∀ r,
      t.directory.registry.byId.get? id = some r → (t.directory.node r).evicted = false := by
    intro id hid
    obtain ⟨hfind, -⟩ := hids id hid
    obtain ⟨q, hq, hliving⟩ := hfind.relisted hs hstore
    have hafter : s.Relisted t → t.directory.registry.byId.get? id = some q ∧
        (t.directory.node q).evicted = false := by
      intro hlisted
      have hbare := hlisted.trans (bare_reconciled _ _).symm
      rw [Directory.registry_of_bare hbare, (Directory.node_of_bare hbare q).2.2]
      exact ⟨hq, hliving⟩
    refine ⟨fun hlisted => ?_, fun r hr => ?_⟩
    · simp [registers, Label.Registry.hasId, Table.has, (hafter hlisted).1]
    · rcases h.hierarchy with hbare | hlisted
      · rw [(Directory.node_of_bare hbare r).2.2]
        exact hfind.living hs (Directory.registry_of_bare hbare ▸ hr)
      · obtain ⟨hq, hliving⟩ := hafter hlisted
        exact Option.some.inj (hq.symm.trans hr) ▸ hliving
  intro hwhy
  cases hwhy with
  | unlisted hfails => simp [hquiet] at hfails
  | unloaded hfails => simp [hquiet] at hfails
  | missing hid hmissing => simpa [Table.has, hmissing] using (hids _ hid).2
  | unregistered hid hlisted hnone =>
    exact absurd (hnone.symm.trans ((hend _ hid).1 hlisted)) (by decide)
  | evicted hid hr hevicted =>
    exact absurd (hevicted.symm.trans ((hend _ hid).2 _ hr)) (by decide)

/-- In a session that any operations led to, with no failure to come, a message is read if its
label ids can be found, the store has labels for them, and at most one is of a category. -/
theorem messageOf_of_findable {first : Session Bench} (hfirst : first.New) (hs : Leads first s)
    (hstore : s.outside.store.Neat) (hplanned : s.outside.store.planned = .empty)
    (r : Message.Resource)
    (hids : ∀ id ∈ r.labelIds.getD [], s.Findable id ∧ s.outside.store.labels.has id = true)
    (hsingle : Single (r.labelIds.getD [])) : ∃ m t, (messageOf r).run s = (.ok m, t) := by
  have horderly := (hs.continues hfirst.orderly).orderly
  have hends : Call.Ends (messageOf r) s (fun _ _ => True) fun _ _ => False := by
    refine (messageOf_reading horderly r).imp (fun _ _ _ => trivial) fun failure t ht => ?_
    obtain ⟨hreading, hwhy⟩ := ht
    cases hwhy with
    | unread hwhy => exact hreading.all_found horderly hstore hplanned hids failure hwhy
    | categories hfound hseveral =>
      have hcount := congrArg List.length hfound
      rw [List.length_map, ← List.countP_eq_length_filter] at hcount
      exact absurd (hcount ▸ hseveral) (Nat.not_lt.mpr hsingle)
  obtain ⟨m, t, hrun, -⟩ := hends.exists_ok
  exact ⟨m, t, hrun⟩

/-- A label that is made between two listings is found by the second one, and a message with it
and with fixed labels is read. -/
theorem messageOf_of_findable_made :
    let before : Store := (Store.initial.seedLabel "Work" (some "Label_1")).2
    let store : Store := (before.seedLabel "Work/Play" (some "Label_2")).2
    let first := opened before
    let s : Session Bench := { Operation.refresh.after first with outside := { store } }
    let r : Message.Resource := { labelIds := some ["INBOX", "Label_2", "CATEGORY_SOCIAL"] }
    first.New ∧ Leads first s ∧ store.Neat ∧ s.registers "Label_1" = true ∧
      s.registers "Label_2" = false ∧ ∃ m t, (messageOf r).run s = (.ok m, t) := by
  intro before store first s r
  have hbefore : before.Neat := Store.initial_neat.seedLabel _ _
  have hstore : store.Neat := hbefore.seedLabel _ _
  have hfirst : first.New := opened_new hbefore.labels
  have hleads : Leads first s := (Leads.start.step .refresh).outside { store } hstore.labels
  have hinbox : s.Findable "INBOX" := .fixed (f := Directory.system .inbox) (by decide +kernel)
    (by decide +kernel) (by decide +kernel)
  have hsocial : s.Findable "CATEGORY_SOCIAL" := .fixed (f := Directory.category .social)
    (by decide +kernel) (by decide +kernel) (by decide +kernel)
  have hmade : s.Findable "Label_2" := .user (l := ⟨"Label_2", "Work/Play"⟩) (by decide +kernel)
    (by decide +kernel)
  refine ⟨hfirst, hleads, hstore, by decide +kernel, by decide +kernel,
    messageOf_of_findable hfirst hleads hstore rfl r ?_ (by decide)⟩
  have hserved : ∀ id ∈ r.labelIds.getD [], store.labels.has id = true := by decide +kernel
  refine fun id hid => ⟨?_, hserved id hid⟩
  have hid : id ∈ ["INBOX", "Label_2", "CATEGORY_SOCIAL"] := hid
  simp only [List.mem_cons, List.not_mem_nil, or_false] at hid
  rcases hid with rfl | rfl | rfl
  · exact hinbox
  · exact hmade
  · exact hsocial

/-- A message whose first label is registered neither before a listing nor after it is not read. -/
theorem messageOf_unregistered (hs : s.Orderly)
    (hplanned : s.outside.store.planned.get? .listLabels = none) (r : Message.Resource)
    (id : String) {rest : List String} (hids : r.labelIds = some (id :: rest))
    (hbefore : s.registers id = false)
    (hafter :
      (refreshed s.directory s.outside.store.labels.values).2.registry.byId.get? id = none) :
    ((messageOf r).run s).1 = .error (.notFound ("label id \"" ++ id ++ "\"")) := by
  refine Call.Ends.error_of_fails ?_
  rw [messageOf, hids, Option.getD_some, labelsOf_cons]
  refine .bind_of_fails (Call.Ends.getThen ?_)
  dsimp only
  rw [show s.directory.registry.hasId id = false from hbefore]
  refine (hs.refresh_ends.impFailed fun _ _ h => ?_).andThen fun _ u hu => ?_
  · simp [hplanned] at h
  · obtain ⟨-, -, hdirectory, -⟩ := hu
    have hnone : u.directory.registry.byId.get? id = none := hdirectory ▸ hafter
    refine .bind_of_fails ?_
    simp [Call.Ends, labelById, nodeById, Call.run_bind, Label.Registry.getById, hnone, ofExcept]

/-- A message with a system label that is not one of the fixed ones is not read, and neither is one
with the first of two labels of the user that have one name, though the store lists the labels and
no request fails. -/
theorem listed_labels_unreadable :
    let star : LabelRecord := ⟨"YELLOW_STAR", "YELLOW_STAR", .system, 0, 0, 0, 0, none, none, none⟩
    let starred : Store := { Store.initial with labels := Store.initial.labels.put star.id star }
    let twins : Store :=
      ((Store.initial.seedLabel "Work" (some "Label_1")).2.seedLabel "Work" (some "Label_2")).2
    let read (store : Store) (id : String) :=
      ((messageOf { labelIds := some [id] }).run (opened store)).1
    (starred.Neat ∧ starred.planned = .empty ∧ starred.labels.has "YELLOW_STAR" = true ∧
      read starred "YELLOW_STAR" = .error (.notFound "label id \"YELLOW_STAR\"")) ∧
    (twins.Neat ∧ twins.planned = .empty ∧ twins.labels.has "Label_1" = true ∧
      read twins "Label_1" = .error (.notFound "label id \"Label_1\"")) := by
  intro star starred twins read
  have hstarred : starred.Neat := Store.initial_neat.put star 1
  have htwins : twins.Neat := (Store.initial_neat.seedLabel _ _).seedLabel _ _
  refine ⟨⟨hstarred, rfl, by decide +kernel, ?_⟩, htwins, rfl, by decide +kernel, ?_⟩
  · exact messageOf_unregistered (opened_new hstarred.labels).orderly rfl _ "YELLOW_STAR" rfl
      (by decide +kernel) (by decide +kernel)
  · refine messageOf_unregistered (opened_new htwins.labels).orderly rfl _ "Label_1" rfl
      (by decide +kernel) ?_
    -- The second label takes the name, so that the first loses its id.
    change (Directory.initial.rebuild [⟨"Label_1", "Work"⟩, ⟨"Label_2", "Work"⟩]
      ).directory.registry.byId.get? "Label_1" = none
    rw [Directory.rebuild, Label.Rebuild.rebuildInto_eq, Label.Rebuild.rebuildLevel_succ,
      Label.Rebuild.sift_of_sorted (by decide +kernel)]
    decide +kernel

end Mailroom.Session
