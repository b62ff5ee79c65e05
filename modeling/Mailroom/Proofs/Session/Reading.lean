import Mailroom.Proofs.Session.Hierarchy
import Mailroom.Proofs.Session.Order
import Mailroom.Proofs.Session.Snapshot

/-! Reading messages. A message's label ids are looked up one after the other; the first that is not
registered makes the labels be listed, once. If all labels are found and loaded the message has
them in order, categories apart, and otherwise it is said why not. -/

namespace Mailroom.Session

open Label (isCategoryId Directory Entity EntityRef NodeRef)
open Remote (Bench MailService Request Store)

variable {s t u v : Session Bench}

/-! ### Labels by their ids -/

/-- The label with an id, loaded if it has to be. -/
def labelById (id : String) : Op Bench EntityRef := do entity (← nodeById id)

/-- Why the label with an id is not had: the id is not registered, or the label is not loaded. -/
inductive Absent (s : Session Bench) (id : String) : Failure → Prop
  | unregistered : s.directory.registry.byId.get? id = none →
      s.Absent id (.notFound ("label id \"" ++ id ++ "\""))
  | unloaded {r failure} : s.directory.registry.byId.get? id = some r → s.Unloaded r failure →
      s.Absent id failure

theorem labelById_ends (hs : s.Orderly) (id : String) : Call.Ends (labelById id) s
    (fun e t => ∃ calls, s.Loads calls t ∧ calls.Sublist [.getLabel id] ∧
      ∃ x, t.entity? e = some x ∧ x.id = id)
    fun failure t => ∃ calls, s.Loads calls t ∧ calls.Sublist [.getLabel id] ∧
      s.Absent id failure := by
  have hnode : Call.Ends (nodeById id) s
      (fun r t => t = s ∧ s.directory.registry.byId.get? id = some r)
      fun failure t => ∃ calls, s.Loads calls t ∧ calls.Sublist [.getLabel id] ∧
        s.Absent id failure := by
    simp only [Call.Ends, nodeById, Call.run_bind, Call.run_get, Label.Registry.getById]
    cases hid : s.directory.registry.byId.get? id with
    | none => exact ⟨[], hs.loads, List.nil_sublist _, .unregistered hid⟩
    | some r => exact ⟨rfl, rfl⟩
  refine hnode.andThen fun r _ hr => ?_
  obtain ⟨rfl, hr⟩ := hr
  have hid := (hs.keyed.of_get? hr).2
  have hentity := hs.entity_ends r
  rw [hid] at hentity
  refine hentity.impFailed fun _ _ hfailed => ?_
  obtain ⟨calls, hloads, hcalls, hwhy⟩ := hfailed
  exact ⟨calls, hloads, hcalls, .unloaded hr hwhy⟩

/-- Loaded labels that stand for some ids, those of categories apart. -/
structure Sorts (s : Session Bench) (ids : List String)
    (refs : List EntityRef × List EntityRef) : Prop where
  splits : s.Splits ids refs.1 refs.2
  loaded : ∀ e, e ∈ refs.1 ∨ e ∈ refs.2 → ∃ x, s.entity? e = some x

theorem Sorts.nil (s : Session Bench) : s.Sorts [] ([], []) := ⟨⟨rfl, rfl⟩, by simp⟩

/-- A label that was loaded goes to the categories or to the other labels, by its id. -/
theorem Sorts.cons (hv : v.Orderly) {e : EntityRef} {x : Entity} (hx : v.entity? e = some x)
    {rest : List String} {refs : List EntityRef × List EntityRef} (h : v.Sorts rest refs)
    {failed : Failure → Session Bench → Prop} :
    Call.Ends (do
      if (← get).entityKind e = .category then return (refs.1, e :: refs.2)
      else return (e :: refs.1, refs.2)) v
      (fun all w => w = v ∧ w.Sorts (x.id :: rest) all) failed := by
  have he := entityId_of_entity? hx
  have hkind : v.entityKind e = .category ↔ isCategoryId (v.entityId e) = true :=
    hv.coherent.entities e
  rw [he] at hkind
  obtain ⟨⟨hlabels, hcategories⟩, hloaded⟩ := h
  have hfirst : ∀ f, f = e → ∃ y, v.entity? f = some y := fun _ hf => ⟨x, hf ▸ hx⟩
  refine Call.Ends.getThen ?_
  split
  case isTrue hcategory =>
    refine ⟨rfl, ⟨?_, ?_⟩, fun f hf => ?_⟩
    · simp [hlabels, hkind.mp hcategory]
    · simp [hcategories, he, hkind.mp hcategory]
    · rw [List.mem_cons] at hf
      exact hf.elim (fun hf => hloaded f (.inl hf)) fun hf =>
        hf.elim (hfirst f) fun hf => hloaded f (.inr hf)
  case isFalse hother =>
    refine ⟨rfl, ⟨?_, ?_⟩, fun f hf => ?_⟩
    · simp [hlabels, he, mt hkind.mpr hother]
    · simp [hcategories, mt hkind.mpr hother]
    · rw [List.mem_cons, or_assoc] at hf
      exact hf.elim (hfirst f) (hloaded f)

/-- What is left to do for some label ids after the first was looked up. -/
def labelsFrom (asked : Bool) (id : String) (rest : List String) :
    Op Bench (List EntityRef × List EntityRef) := do
  let e ← labelById id
  let refs ← labelsOf asked rest
  if (← get).entityKind e = .category then return (refs.1, e :: refs.2)
  else return (e :: refs.1, refs.2)

theorem labelsOf_cons (asked : Bool) (id : String) (rest : List String) :
    labelsOf asked (id :: rest) = (do
      let known := (← get).directory.registry.hasId id
      if !known && !asked then
        let _ ← refresh
      labelsFrom (asked || !known) id rest) := by
  simp only [labelsOf, labelsFrom, labelById, bind_assoc]

theorem labelsOf_asked (id : String) (rest : List String) (s : Session Bench) :
    (labelsOf true (id :: rest)).run s = (labelsFrom true id rest).run s := by
  rw [labelsOf_cons, Call.run_bind, Call.run_get]
  dsimp only
  rw [if_neg (by simp), Bool.true_or]

namespace Loads

variable {calls : List Request} (h : s.Loads calls t)
include h

/-- What is absent after labels were loaded was so before. -/
theorem absent {id : String} {failure : Failure} (habsent : t.Absent id failure) :
    s.Absent id failure := by
  have hregistry := Directory.registry_of_bare h.bare
  cases habsent with
  | unregistered hnone => exact .unregistered (hregistry ▸ hnone)
  | @unloaded r _ hr hwhy =>
    refine .unloaded (hregistry ▸ hr) ?_
    obtain ⟨hid, hname, hmark⟩ := Directory.node_of_bare h.bare r
    cases hwhy with
    | evicted hevicted =>
      rw [hid, hname]
      exact .evicted (hmark ▸ hevicted)
    | planned hplanned => exact .planned (h.store.planned _ _ hplanned)
    | missing hmissing =>
      rw [hid, h.store.labels] at hmissing
      rw [hid]
      exact .missing hmissing

end Loads

/-- When the labels were listed before, the ids are just looked up. -/
theorem labelsOf_asked_ends (ids : List String) : ∀ {s : Session Bench}, s.Orderly →
    Call.Ends (labelsOf true ids) s
      (fun refs t => ∃ calls, s.Loads calls t ∧ calls.Sublist (ids.map .getLabel) ∧
        t.Sorts ids refs)
      fun failure t => ∃ calls, s.Loads calls t ∧ calls.Sublist (ids.map .getLabel) ∧
        ∃ id ∈ ids, s.Absent id failure := by
  induction ids with
  | nil => exact fun hs => ⟨[], hs.loads, List.nil_sublist _, .nil _⟩
  | cons id rest ih =>
    intro s hs
    rw [Call.Ends, labelsOf_asked]
    refine ((labelById_ends hs id).impFailed ?_).andThen fun e u hfirst => ?_
    · rintro failure t ⟨calls, hloads, hcalls, habsent⟩
      exact ⟨calls, hloads, hcalls.trans (by simp), id, List.mem_cons_self, habsent⟩
    obtain ⟨calls, hloads, hcalls, x, hx, rfl⟩ := hfirst
    -- What is missing after the first label was loaded was missing before.
    refine ((ih hloads.orderly).impFailed ?_).andThen fun refs v hrest => ?_
    · rintro failure t ⟨more, hmore, hsub, other, hother, habsent⟩
      exact ⟨calls ++ more, hloads.trans hmore, hcalls.append hsub, other,
        List.mem_cons_of_mem _ hother, hloads.absent habsent⟩
    obtain ⟨more, hmore, hsub, hsorts⟩ := hrest
    refine (hsorts.cons hmore.orderly (hmore.entities e x hx)).impDone fun all w hw => ?_
    obtain ⟨rfl, hall⟩ := hw
    exact ⟨calls ++ more, hloads.trans hmore, hcalls.append hsub, hall⟩

/-! ### Messages -/

/-- Whether a label is registered under the id. -/
def registers (s : Session Bench) (id : String) : Bool := s.directory.registry.hasId id

/-- The requests that are made for some label ids: labels are loaded, and where the first id is
reached that is not registered, after all those before were loaded, the labels are listed. -/
def Requests (s : Session Bench) (ids : List String) (t : Session Bench) : Prop :=
  ∃ before after, t.outside.store.calls = s.outside.store.calls ++ before ++ after ∧
    before.Sublist ((ids.takeWhile s.registers).map .getLabel) ∧
    (after = [] ∨ ∃ refs u id rest more,
      ((ids.takeWhile s.registers).mapM labelById).run s = (.ok refs, u) ∧
      u.outside.store.calls = s.outside.store.calls ++ before ∧
      ids.dropWhile s.registers = id :: rest ∧ u.registers id = false ∧
      after = .listLabels :: more ∧ more.Sublist ((id :: rest).map .getLabel))

/-- The hierarchy is that of before, reconciled with the labels that the store had. -/
def Relisted (s t : Session Bench) : Prop :=
  t.directory.bare = reconciled s.directory.bare s.outside.store.labels.values

/-- What looking up some label ids does to an orderly session, whether all are found or not. -/
structure Reading (s : Session Bench) (ids : List String) (t : Session Bench) : Prop where
  orderly : t.Orderly
  entities : ∀ e x, s.entity? e = some x → t.entity? e = some x
  hierarchy : t.directory.bare = s.directory.bare ∨ s.Relisted t
  requests : s.Requests ids t

/-- Why some label ids are not all looked up. -/
inductive Unread (s : Session Bench) (ids : List String) (t : Session Bench) : Failure → Prop
  | unlisted {failure} : s.outside.store.planned.get? .listLabels = some failure →
      Unread s ids t failure
  | unloaded {failure} : s.outside.store.planned.get? .getLabel = some failure →
      Unread s ids t failure
  | missing {id} : id ∈ ids → s.outside.store.labels.get? id = none →
      Unread s ids t (.api ("label " ++ id ++ " not found"))
  | unregistered {id} : id ∈ ids → s.Relisted t → t.registers id = false →
      Unread s ids t (.notFound ("label id \"" ++ id ++ "\""))
  | evicted {id r} : id ∈ ids → t.directory.registry.byId.get? id = some r →
      (t.directory.node r).evicted = true →
      Unread s ids t (.notFound ("label \"" ++ (t.directory.node r).name ++ "\" (" ++ id ++ ")"))

theorem registers_eq_false {id : String} :
    s.registers id = false ↔ s.directory.registry.byId.get? id = none := by
  simp [registers, Label.Registry.hasId, Table.has]

/-- A label that is absent from a session on the way keeps the ids from being looked up. -/
theorem Absent.unread {ids : List String} {id : String} {failure : Failure}
    (h : u.Absent id failure) (hu : u.Orderly) (hid : id ∈ ids)
    (hstore : s.outside.store.Reads u.outside.store) (hbare : t.directory.bare = u.directory.bare)
    (hlisted : u.registers id = false → s.Relisted t) : Unread s ids t failure := by
  have hregistry := Directory.registry_of_bare hbare
  cases h with
  | unregistered hnone =>
    have hnone := registers_eq_false.mpr hnone
    refine .unregistered hid (hlisted hnone) ?_
    rw [registers, hregistry]
    exact hnone
  | @unloaded r _ hr hwhy =>
    obtain ⟨-, hname, hmark⟩ := Directory.node_of_bare hbare r
    have hown := (hu.keyed.of_get? hr).2
    cases hwhy with
    | evicted hevicted =>
      rw [hown, ← hname]
      exact .evicted hid (hregistry ▸ hr) (hmark.trans hevicted)
    | planned hplanned => exact .unloaded (hstore.planned _ _ hplanned)
    | missing hmissing =>
      rw [hown, hstore.labels] at hmissing
      rw [hown]
      exact .missing hid hmissing

theorem Loads.relisted {calls : List Request} (h : s.Loads calls u) :
    u.Relisted t ↔ s.Relisted t := by
  rw [Relisted, Relisted, h.bare, h.store.labels]

theorem Loads.registers {calls : List Request} (h : s.Loads calls u) :
    u.registers = s.registers := by
  funext id
  rw [Session.registers, Directory.registry_of_bare h.bare]
  rfl

/-- The requests for a label that is registered, and then for more ids. -/
theorem Requests.cons {calls : List Request} {id : String} {rest : List String} {e : EntityRef}
    (hid : s.registers id = true) (hrun : (labelById id).run s = (.ok e, u))
    (hloads : s.Loads calls u) (hcalls : calls.Sublist [.getLabel id]) (h : u.Requests rest t) :
    s.Requests (id :: rest) t := by
  obtain ⟨before, after, htotal, hbefore, hafter⟩ := h
  rw [hloads.registers] at hbefore hafter
  refine ⟨calls ++ before, after, ?_, ?_, hafter.imp (fun h => h) ?_⟩
  · rw [htotal, hloads.calls]
    simp only [List.append_assoc]
  · rw [List.takeWhile_cons_of_pos hid]
    exact hcalls.append hbefore
  · rintro ⟨refs, v, next, others, more, hreached, hv, hdrop, hnext, hlist, hmore⟩
    refine ⟨e :: refs, v, next, others, more, ?_, ?_, ?_, hnext, hlist, hmore⟩
    · rw [List.takeWhile_cons_of_pos hid, List.mapM_cons, Call.run_bind, hrun]
      dsimp only
      rw [Call.run_bind, hreached]
      rfl
    · rw [hv, hloads.calls, List.append_assoc]
    · rw [List.dropWhile_cons_of_pos hid]
      exact hdrop

theorem Loads.hierarchy {calls : List Request} (h : s.Loads calls u)
    (ht : t.directory.bare = u.directory.bare ∨ u.Relisted t) :
    t.directory.bare = s.directory.bare ∨ s.Relisted t :=
  ht.imp (fun hbare => hbare.trans h.bare) h.relisted.mp

theorem Loads.unread {calls : List Request} {ids : List String} {id : String} {failure : Failure}
    (h : s.Loads calls u) (hwhy : u.Unread ids t failure) : s.Unread (id :: ids) t failure := by
  cases hwhy with
  | unlisted hplanned => exact .unlisted (h.store.planned _ _ hplanned)
  | unloaded hplanned => exact .unloaded (h.store.planned _ _ hplanned)
  | missing hmem hmissing =>
    exact .missing (List.mem_cons_of_mem _ hmem) (h.store.labels ▸ hmissing)
  | unregistered hmem hlisted hnone =>
    exact .unregistered (List.mem_cons_of_mem _ hmem) (h.relisted.mp hlisted) hnone
  | evicted hmem hr hevicted => exact .evicted (List.mem_cons_of_mem _ hmem) hr hevicted

/-- Looking up a label that is registered, before the others. -/
theorem labelsFrom_known (hs : s.Orderly) {id : String} {rest : List String}
    (hid : s.registers id = true)
    (ih : ∀ {s : Session Bench}, s.Orderly → Call.Ends (labelsOf false rest) s
      (fun refs t => s.Reading rest t ∧ t.Sorts rest refs)
      fun failure t => s.Reading rest t ∧ s.Unread rest t failure) :
    Call.Ends (labelsFrom false id rest) s
      (fun refs t => s.Reading (id :: rest) t ∧ t.Sorts (id :: rest) refs)
      fun failure t => s.Reading (id :: rest) t ∧ s.Unread (id :: rest) t failure := by
  have hhead : (id :: rest).takeWhile s.registers = id :: rest.takeWhile s.registers :=
    List.takeWhile_cons_of_pos hid
  refine ((labelById_ends hs id).withRun.impFailed ?_).andThen fun e u hfirst => ?_
  · rintro failure t ⟨⟨calls, hloads, hcalls, habsent⟩, -⟩
    refine ⟨⟨hloads.orderly, hloads.entities, .inl hloads.bare, calls, [], ?_, ?_, .inl rfl⟩, ?_⟩
    · rw [hloads.calls, List.append_nil]
    · rw [hhead]
      exact hcalls.trans (by simp)
    · exact habsent.unread hs List.mem_cons_self (.refl _) hloads.bare
        fun hnone => absurd (hid.symm.trans hnone) (by decide)
  obtain ⟨⟨calls, hloads, hcalls, x, hx, rfl⟩, hrun⟩ := hfirst
  have hreading : ∀ t, u.Reading rest t → s.Reading (x.id :: rest) t := fun t ht =>
    ⟨ht.orderly, fun f y hy => ht.entities f y (hloads.entities f y hy),
      hloads.hierarchy ht.hierarchy, ht.requests.cons hid hrun hloads hcalls⟩
  refine ((ih hloads.orderly).impFailed fun failure t ht =>
    ⟨hreading t ht.1, hloads.unread ht.2⟩).andThen fun refs v hrest => ?_
  obtain ⟨hv, hsorts⟩ := hrest
  refine (hsorts.cons hv.orderly (hv.entities e x hx)).impDone fun all w hw => ?_
  obtain ⟨rfl, hall⟩ := hw
  exact ⟨hreading w hv, hall⟩

/-- Looking up label ids whose first is not registered. -/
theorem labelsOf_unknown (hs : s.Orderly) {id : String} (rest : List String)
    (hid : s.registers id = false) :
    Call.Ends (do
        let _ ← refresh
        labelsFrom true id rest) s
      (fun refs t => s.Reading (id :: rest) t ∧ t.Sorts (id :: rest) refs)
      fun failure t => s.Reading (id :: rest) t ∧ s.Unread (id :: rest) t failure := by
  have hnone : ¬s.registers id = true := by simp [hid]
  have hrequests : ∀ (t : Session Bench) more, t.outside.store.calls =
      s.outside.store.calls ++ [.listLabels] ++ more →
      more.Sublist ((id :: rest).map .getLabel) → s.Requests (id :: rest) t := by
    intro t more htotal hmore
    refine ⟨[], .listLabels :: more, ?_, List.nil_sublist _, .inr ⟨[], s, id, rest, more, ?_, ?_,
      List.dropWhile_cons_of_neg hnone, hid, rfl, hmore⟩⟩
    · rw [htotal]
      simp
    · rw [List.takeWhile_cons_of_neg hnone]
      rfl
    · rw [List.append_nil]
  refine (hs.refresh_ends.impFailed ?_).andThen fun _ u hlist => ?_
  · rintro failure t ⟨hloads, hplanned⟩
    refine ⟨⟨hloads.orderly, hloads.entities, .inl hloads.bare, ?_⟩, .unlisted hplanned⟩
    exact hrequests t [] (by rw [hloads.calls, List.append_nil]) (List.nil_sublist _)
  obtain ⟨hu, hentities, hdirectory, hstore⟩ := hlist
  have hreads : s.outside.store.Reads u.outside.store := hstore ▸ Store.reads_asked _ _
  have hreading : ∀ t calls, u.Loads calls t → calls.Sublist ((id :: rest).map .getLabel) →
      s.Relisted t ∧ s.Reading (id :: rest) t := by
    intro t calls hloads hcalls
    have hlisted : s.Relisted t := by
      rw [Relisted, hloads.bare, hdirectory]
      exact bare_reconciled _ _
    refine ⟨hlisted, hloads.orderly, fun e x hx => hloads.entities e x ?_, .inr hlisted,
      hrequests t calls ?_ hcalls⟩
    · rw [entity?, hentities]
      exact hx
    · rw [hloads.calls, hstore]
      rfl
  -- The labels are not listed a second time, so the first id is looked up as the others are.
  rw [Call.Ends, ← labelsOf_asked]
  refine (labelsOf_asked_ends (id :: rest) hu).imp ?_ ?_
  · rintro refs t ⟨calls, hloads, hcalls, hsorts⟩
    exact ⟨(hreading t calls hloads hcalls).2, hsorts⟩
  · rintro failure t ⟨calls, hloads, hcalls, other, hother, habsent⟩
    obtain ⟨hlisted, ht⟩ := hreading t calls hloads hcalls
    exact ⟨ht, habsent.unread hu hother hreads hloads.bare fun _ => hlisted⟩

/-- Looking up label ids that were not listed before. -/
theorem labelsOf_reading (ids : List String) : ∀ {s : Session Bench}, s.Orderly →
    Call.Ends (labelsOf false ids) s
      (fun refs t => s.Reading ids t ∧ t.Sorts ids refs)
      fun failure t => s.Reading ids t ∧ s.Unread ids t failure := by
  induction ids with
  | nil =>
    intro s hs
    have hnone : s.Requests [] s := ⟨[], [], by simp, List.nil_sublist _, .inl rfl⟩
    exact ⟨⟨hs, fun _ _ h => h, .inl rfl, hnone⟩, .nil _⟩
  | cons id rest ih =>
    intro s hs
    rw [labelsOf_cons]
    refine Call.Ends.getThen ?_
    dsimp only
    -- The induction goes on only as long as the ids are registered.
    cases hid : s.registers id with
    | true =>
      rw [show s.directory.registry.hasId id = true from hid]
      exact labelsFrom_known hs hid ih
    | false =>
      rw [show s.directory.registry.hasId id = false from hid]
      exact labelsOf_unknown hs rest hid

/-! ### Messages and their labels -/

/-- Why a message is not read: its label ids are not all looked up, or several are of categories. -/
inductive Unreadable (s : Session Bench) (r : Message.Resource) (t : Session Bench) :
    Failure → Prop
  | unread {failure} : s.Unread (r.labelIds.getD []) t failure → Unreadable s r t failure
  | categories {found : List EntityRef} :
      found.map t.entityId = (r.labelIds.getD []).filter isCategoryId →
      1 < found.length → Unreadable s r t (.parse ("message " ++ r.id.getD "")
        ("expected at most one category, got " ++ ", ".intercalate (found.map t.entityName)))

theorem messageOf_reading (hs : s.Orderly) (r : Message.Resource) : Call.Ends (messageOf r) s
    (fun m t => s.Reading (r.labelIds.getD []) t ∧
      t.Sorts (r.labelIds.getD []) (m.labels, m.category.toList))
    fun failure t => s.Reading (r.labelIds.getD []) t ∧ s.Unreadable r t failure := by
  rw [messageOf]
  refine ((labelsOf_reading _ hs).impFailed fun _ _ h => ⟨h.1, .unread h.2⟩).andThen
    fun refs t ht => ?_
  obtain ⟨labels, categories⟩ := refs
  obtain ⟨hreading, hsorts⟩ := ht
  rcases categories with _ | ⟨first, _ | ⟨second, categories⟩⟩
  · exact ⟨hreading, hsorts⟩
  · exact ⟨hreading, hsorts⟩
  · exact ⟨hreading, .categories hsorts.splits.2 (by simp)⟩

theorem Continues.entityId (h : t.Continues u) {e : EntityRef} {x : Entity}
    (hx : t.entity? e = some x) : u.entityId e = t.entityId e := by
  obtain ⟨y, hy, hid, -⟩ := h.entities e x hx
  rw [entityId_of_entity? hx, entityId_of_entity? hy, hid]

/-- The labels of a message go on to stand for its ids. -/
theorem Sorts.continues {ids : List String} {refs : List EntityRef × List EntityRef}
    (hsorts : t.Sorts ids refs) (h : t.Continues u) : u.Splits ids refs.1 refs.2 := by
  have hsame : ∀ e, e ∈ refs.1 ∨ e ∈ refs.2 → u.entityId e = t.entityId e := fun e he =>
    (hsorts.loaded e he).elim fun _ hx => h.entityId hx
  refine ⟨?_, ?_⟩
  · rw [← hsorts.splits.1]
    exact List.map_congr_left fun e he => hsame e (.inl he)
  · rw [← hsorts.splits.2]
    exact List.map_congr_left fun e he => hsame e (.inr he)

namespace Splits

variable {ids : List String} {m : Message} (h : u.Splits ids m.labels m.category.toList)
include h

theorem carries_iff (id : String) :
    u.carries m id = true ↔ id ∈ ids ∧ isCategoryId id = false := by
  have hmem : u.carries m id = true ↔ id ∈ m.labels.map u.entityId := by simp [carries]
  rw [hmem, h.1, List.mem_filter, Bool.not_eq_true']

theorem isIn_iff (id : String) : u.isIn m id = true ↔ id ∈ ids ∧ isCategoryId id = true := by
  have hmem : u.isIn m id = true ↔ id ∈ m.category.toList.map u.entityId := by
    cases hcategory : m.category with
    | none => simp [isIn, hcategory]
    | some c => simpa [isIn, hcategory] using eq_comm
  rw [hmem, h.2, List.mem_filter]

/-- Both tests of membership say whether the label's id is among those of the message. -/
theorem contains (hu : u.Orderly) {e : EntityRef} {x : Entity} (hx : u.entity? e = some x) :
    (contains e (.message m)).run u = (.ok (decide (x.id ∈ ids)), u) ∧
      (messageContains m (.entity e)).run u = (.ok (decide (x.id ∈ ids)), u) := by
  have he := entityId_of_entity? hx
  have hkind : u.entityKind e = .category ↔ isCategoryId x.id = true := by
    rw [← he]
    exact hu.coherent.entities e
  have hcarries := h.carries_iff x.id
  have hisIn := h.isIn_iff x.id
  have hof : (Session.contains e (.message m)).run u =
      (.ok (if u.entityKind e = .category then u.isIn m x.id else u.carries m x.id), u) := by
    rw [Session.contains, Call.run_bind, Call.run_get]
    dsimp only
    rw [he]
    cases u.entityKind e <;> rfl
  have hin : (messageContains m (.entity e)).run u =
      (.ok (u.carries m x.id || u.isIn m x.id), u) := by
    rw [← he]
    rfl
  rw [hof, hin]
  refine ⟨?_, ?_⟩ <;> rw [Prod.mk.injEq, Except.ok.injEq, Bool.eq_iff_iff, decide_eq_true_iff]
  · refine ⟨?_, rfl⟩
    split
    case isTrue hcategory => simp [hisIn, hkind.mp hcategory]
    case isFalse hother => simp [hcarries, mt hkind.mpr hother]
  · rw [Bool.or_eq_true, hcarries, hisIn]
    cases isCategoryId x.id <;> simp

end Splits

/-- Reading a message in a session that any operations led to. The labels are listed at most once,
where an id is not registered. The message has exactly the labels and the category of its ids, and
as long as it is kept, a label contains it, and it contains the label, just if the label's id is
one of them. It is not read only if a request fails, an id is still not registered after the
listing, a label is not loaded, or there are several categories. -/
theorem messageOf_sorts {first : Session Bench} (hfirst : first.New) (hs : Leads first s)
    (r : Message.Resource) :
    let ids := r.labelIds.getD []
    Call.Ends (messageOf r) s
      (fun m t => s.Requests ids t ∧ t.Splits ids m.labels m.category.toList ∧
        ∀ u, Leads t u → ∀ e x, u.entity? e = some x →
          (contains e (.message m)).run u = (.ok (decide (x.id ∈ ids)), u) ∧
          (messageContains m (.entity e)).run u = (.ok (decide (x.id ∈ ids)), u))
      fun failure t => s.Requests ids t ∧ s.Unreadable r t failure := by
  intro ids
  have horderly := (hs.continues hfirst.orderly).orderly
  refine (messageOf_reading horderly r).imp (fun m t ht => ?_)
    fun failure t ht => ⟨ht.1.requests, ht.2⟩
  obtain ⟨hreading, hsorts⟩ := ht
  refine ⟨hreading.requests, hsorts.splits, fun u hu e x hx => ?_⟩
  have hlater := hu.continues hreading.orderly
  exact (hsorts.continues hlater).contains hlater.orderly hx

/-- A message with a label that is not listed yet is read with one listing, and a label that was
loaded before the listing is loaded again. After another refresh, the message's category and its
label of the user contain it, and a category that is loaded only then does not. -/
theorem messageOf_sorts_unlisted :
    let store : Store := (Store.initial.seedLabel "Work" (some "Label_1")).2
    let first := opened store
    let r : Message.Resource :=
      { labelIds := some ["INBOX", "CATEGORY_SOCIAL", "Label_1", "INBOX"] }
    let t := ((messageOf r).run first).2
    let u := (Operation.entity (Directory.category .promotions)).after (Operation.refresh.after t)
    first.New ∧ Leads t u ∧
    t.outside.store.calls = [.getLabel "INBOX", .getLabel "CATEGORY_SOCIAL", .listLabels,
      .getLabel "Label_1", .getLabel "INBOX"] ∧
    ∃ m, (messageOf r).run first = (.ok m, t) ∧
      m.labels.map t.entityId = ["INBOX", "Label_1", "INBOX"] ∧
      m.category.toList.map t.entityId = ["CATEGORY_SOCIAL"] ∧
      (contains ⟨1⟩ (.message m)).run u = (.ok true, u) ∧
      (contains ⟨2⟩ (.message m)).run u = (.ok true, u) ∧
      (contains ⟨4⟩ (.message m)).run u = (.ok false, u) := by
  intro store first r t u
  have hindexed : store.Indexed := Store.initial_indexed.put ⟨"Label_1", "Work", .user, 0, 0, 0, 0,
    none, none, none⟩ 1
  have hfirst : first.New := opened_new hindexed
  have hleads : Leads t u := (Leads.start.step .refresh).step _
  obtain ⟨m, t', hrun⟩ : ∃ m t', (messageOf r).run first = (.ok m, t') :=
    Call.exists_ok (by decide +kernel)
  have ht : t = t' := congrArg Prod.snd hrun
  have hdone := messageOf_sorts hfirst .start r
  rw [Call.Ends, hrun, ← ht] at hdone
  obtain ⟨-, ⟨hlabels, hcategory⟩, hcontains⟩ := hdone
  have htest : ∀ e id, (u.entity? e).map Entity.id = some id → (contains e (.message m)).run u =
      (.ok (decide (id ∈ r.labelIds.getD [])), u) := by
    intro e id hid
    obtain ⟨x, hx, rfl⟩ := Option.map_eq_some_iff.mp hid
    exact (hcontains u hleads e x hx).1
  refine ⟨hfirst, hleads, by decide +kernel, m, ht ▸ hrun, hlabels, hcategory, ?_, ?_, ?_⟩
  · exact htest _ "CATEGORY_SOCIAL" (by decide +kernel)
  · exact htest _ "Label_1" (by decide +kernel)
  · exact htest _ "CATEGORY_PROMOTIONS" (by decide +kernel)

end Mailroom.Session
