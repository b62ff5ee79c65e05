import Mailroom.Proofs.Label.Bare
import Mailroom.Proofs.Remote.Indexed
import Mailroom.Proofs.Session.Operation
import Mailroom.Proofs.Session.Tracking

/-! Orderly sessions. In an orderly session the nodes and the loaded labels of categories are
exactly those with the id of a category, and what is kept for a node is its own label; nothing is
asked of the failures that are planned. Every operation leaves a session orderly, however it ends,
and every loaded label with its id and its kind. -/

namespace Mailroom.Label.Directory

theorem evicted_of_standing {d : Directory} {r : NodeRef} {failure : Failure}
    (h : d.standing r = .error failure) : (d.node r).evicted = true ∧
      failure = .notFound ("label \"" ++ (d.node r).name ++ "\" (" ++ (d.node r).id ++ ")") := by
  unfold standing at h
  by_cases hevicted : (d.node r).evicted = true
  · rw [if_pos hevicted] at h
    exact ⟨hevicted, (Except.error.inj h).symm⟩
  · rw [if_neg hevicted] at h
    cases hcached : (d.node r).cached <;> simp [hcached] at h

section Forgetting

variable {s d : Directory} (f : Node → Node) (hid : ∀ n, (f n).id = n.id)
  (hevicted : ∀ n, (f n).evicted = n.evicted)
include hid hevicted

theorem Stands.modifyNode {listings : List (List Tag)} (h : Stands s d listings)
    (hname : ∀ n, (f n).name = n.name) (r : NodeRef) :
    Stands s (d.modifyNode r f) listings := by
  refine h.transfer rfl rfl fun q hq => ⟨(has_modifyNode _).mpr hq, ?_, ?_⟩
  · exact congrArg₂ Tag.mk (field_modifyNode Node.id hid q) (field_modifyNode Node.name hname q)
  · exact field_modifyNode Node.evicted hevicted q

/-- A change that keeps no label anew. -/
theorem Tended.modifyNode (h : d.Tended) (hkind : ∀ n, (f n).kind = n.kind)
    (hcached : ∀ n e g, (f n).cached = some (e, g) → n.cached = some (e, g)) (r : NodeRef) :
    (d.modifyNode r f).Tended := by
  refine ⟨fun q hq => ?_, fun q => ?_, fun q => ?_⟩
  · rw [field_modifyNode Node.evicted hevicted]
    exact h.living q hq
  · rw [field_modifyNode Node.id hid, field_modifyNode Node.kind hkind]
    exact h.user q
  · exact holds_modifyNode (P := fun n => ∀ e g, n.cached = some (e, g) → g ≤ d.generation)
      (fun n hn e g he => hn e g (hcached n e g he)) r (h.cached q)

end Forgetting

end Mailroom.Label.Directory

namespace Mailroom.Session

open Label (isCategoryId Directory Entity EntityRef NodeRef)
open Remote (Bench LabelRecord MailService Request Store)

/-- A session that would be coherent with a store without plans, on a store that keeps every label
under its own id. -/
structure Orderly (s : Session Bench) : Prop where
  coherent : (s.withStore .initial).Coherent
  tended : s.directory.Tended
  indexed : s.outside.store.Indexed

/-- What operations do to an orderly session, whatever they are: loaded labels keep their ids and
their kinds. -/
structure Continues (s t : Session Bench) : Prop where
  orderly : t.Orderly
  entities : ∀ e x, s.entity? e = some x → ∃ y, t.entity? e = some y ∧ y.id = x.id ∧ y.kind = x.kind

variable {s t u : Session Bench} {α β : Type}

theorem Orderly.continues (h : s.Orderly) : s.Continues s :=
  ⟨h, fun _ x hx => ⟨x, hx, rfl, rfl⟩⟩

theorem Continues.trans (h : s.Continues t) (h' : t.Continues u) : s.Continues u := by
  refine ⟨h'.orderly, fun e x hx => ?_⟩
  obtain ⟨y, hy, hid, hkind⟩ := h.entities e x hx
  obtain ⟨z, hz, hid', hkind'⟩ := h'.entities e y hy
  exact ⟨z, hz, hid'.trans hid, hkind'.trans hkind⟩

namespace Orderly

theorem stands (h : s.Orderly) : ∃ listings, Directory.Stands .initial s.directory listings :=
  h.coherent.stands

theorem keyed (h : s.Orderly) : s.directory.Keyed := by
  obtain ⟨_, hstands⟩ := h.stands
  exact hstands.based.keyed

theorem withOutside (h : s.Orderly) {b : Bench} (hb : b.store.Indexed) :
    Orderly { s with outside := b } :=
  ⟨⟨h.coherent.stands, h.coherent.nodes, h.coherent.entities, Remote.Store.initial_sound⟩,
    h.tended, hb⟩

theorem withDirectory (h : s.Orderly) {d : Directory}
    (hd : Coherent { s.withStore .initial with directory := d }) (htended : d.Tended) :
    Orderly { s with directory := d } := ⟨hd, htended, h.indexed⟩

theorem refreshed (h : s.Orderly) (records : List LabelRecord) :
    Orderly { s with directory := (Session.refreshed s.directory records).2 } :=
  h.withDirectory (h.coherent.refreshed records) (h.tended.refreshed h.keyed records).1

theorem keep (h : s.Orderly) {r : NodeRef} {e : EntityRef} {x : Entity}
    (hx : s.entity? e = some x) (hid : x.id = (s.directory.node r).id)
    (hkind : x.kind = (s.directory.node r).kind) :
    Orderly { s with directory := s.directory.keep r e s.directory.generation } :=
  h.withDirectory (h.coherent.keep (s := s.withStore .initial) hx hid hkind _) (h.tended.keep r e)

theorem updated (h : s.Orderly) (store : Store) (hstore : store.Indexed) (e : EntityRef)
    (label : LabelRecord) : s.Continues (s.updated store e label) := by
  refine ⟨⟨?_, h.tended, hstore⟩, fun f x hx => updated_keeps store e label hx⟩
  exact h.coherent.updated (s := s.withStore .initial) Remote.Store.initial_sound

end Orderly

/-! ### What operations keep -/

theorem Asks.indexed {x : Call Bench α} (hx : Asks x) {b : Bench} (hb : b.store.Indexed) :
    (x.run b).2.store.Indexed := by
  cases hx with
  | createLabel body => exact (hb.createLabel body).state
  | updateLabel id body => exact (hb.updateLabel id body).state
  | deleteLabel id => exact (hb.deleteLabel id).state
  | listMessages q => exact (hb.listMessages q).state
  | getMessage id => exact (hb.getMessage id).state
  | getMessages ids => exact (hb.getMessages ids).state
  | modifyMessage id c => exact (hb.modifyMessage id c).state
  | trashMessage id => exact (hb.trashMessage id).state
  | untrashMessage id => exact (hb.untrashMessage id).state
  | deleteMessage id => exact (hb.deleteMessage id).state
  | deleteMessages ids => exact (hb.deleteMessages ids).state
  | modifyMessages ids c => exact (hb.modifyMessages ids c).state

/-! ### Loading labels -/

/-- What loading labels does to an orderly session: the requests are made, and loaded labels are
kept beside the nodes, which shows in no bare directory. -/
structure Loads (s : Session Bench) (calls : List Request) (t : Session Bench) : Prop where
  orderly : t.Orderly
  entities : ∀ e x, s.entity? e = some x → t.entity? e = some x
  bare : t.directory.bare = s.directory.bare
  store : s.outside.store.Reads t.outside.store
  calls : t.outside.store.calls = s.outside.store.calls ++ calls

namespace Loads

theorem continues {calls : List Request} (h : s.Loads calls t) : s.Continues t :=
  ⟨h.orderly, fun e x hx => ⟨x, h.entities e x hx, rfl, rfl⟩⟩

theorem trans {calls more : List Request} (h : s.Loads calls t) (h' : t.Loads more u) :
    s.Loads (calls ++ more) u :=
  ⟨h'.orderly, fun e x hx => h'.entities e x (h.entities e x hx), h'.bare.trans h.bare,
    h.store.trans h'.store, by rw [h'.calls, h.calls, List.append_assoc]⟩

end Loads

theorem Orderly.loads (h : s.Orderly) : s.Loads [] s :=
  ⟨h, fun _ _ => id, rfl, .refl _, (List.append_nil _).symm⟩

/-- Why the label of a node is not loaded: the node is evicted, the request fails as it was planned
to, or there is no such label. -/
inductive Unloaded (s : Session Bench) (r : NodeRef) : Failure → Prop
  | evicted : (s.directory.node r).evicted = true → s.Unloaded r (.notFound
      ("label \"" ++ (s.directory.node r).name ++ "\" (" ++ (s.directory.node r).id ++ ")"))
  | planned {failure} : s.outside.store.planned.get? .getLabel = some failure →
      s.Unloaded r failure
  | missing : s.outside.store.labels.get? (s.directory.node r).id = none →
      s.Unloaded r (.api ("label " ++ (s.directory.node r).id ++ " not found"))

namespace Orderly

variable (h : s.Orderly)
include h

theorem asked (r : Request) : s.Loads [r] (s.withStore (s.outside.store.asked r)) :=
  ⟨h.withOutside (h.indexed.of_labels rfl), fun _ _ => id, rfl, Store.reads_asked _ r, rfl⟩

/-- A session that loaded a label of a kind that its id is of. -/
theorem pushed {x : Entity} (hx : x.kind = .category ↔ isCategoryId x.id = true) :
    s.Loads [] { s with entities := s.entities.push x } := by
  have hpushed := h.coherent.pushed (.refl _) x hx
  exact ⟨⟨hpushed.coherent, h.tended, h.indexed⟩, hpushed.entities, rfl, .refl _,
    (List.append_nil _).symm⟩

theorem kept {r : NodeRef} {e : EntityRef} {x : Entity} (hx : s.entity? e = some x)
    (hid : x.id = (s.directory.node r).id) (hkind : x.kind = (s.directory.node r).kind) :
    s.Loads [] { s with directory := s.directory.keep r e s.directory.generation } :=
  ⟨h.keep hx hid hkind, fun _ _ => id, s.directory.bare_keep r e _, .refl _,
    (List.append_nil _).symm⟩

theorem getLabel_ends (id : String) :
    Call.Ends (onOutside (MailService.getLabel (σ := Bench) id)) s
      (fun label t => label.id = id ∧ t = s.withStore (s.outside.store.asked (.getLabel id)))
      fun failure t => s.Loads [.getLabel id] t ∧
        (s.outside.store.planned.get? .getLabel = some failure ∨
          s.outside.store.labels.get? id = none ∧
            failure = .api ("label " ++ id ++ " not found")) := by
  have hasked := h.asked (.getLabel id)
  refine ends_onStore ?_
  rw [Call.Ends, Store.getLabel_eq]
  cases hplanned : s.outside.store.planned.get? .getLabel with
  | some failure => exact ⟨hasked, .inl rfl⟩
  | none =>
    cases hlabel : s.outside.store.labels.get? id with
    | none => exact ⟨hasked, .inr ⟨rfl, rfl⟩⟩
    | some label => exact ⟨h.indexed _ _ hlabel, rfl⟩

theorem load_ends (r : NodeRef) : Call.Ends (load r) s
    (fun e t => s.Loads [.getLabel (s.directory.node r).id] t ∧ t.directory = s.directory ∧
      ∃ x, t.entity? e = some x ∧ x.id = (s.directory.node r).id ∧
        x.kind = (s.directory.node r).kind)
    fun failure t => s.Loads [.getLabel (s.directory.node r).id] t ∧ s.Unloaded r failure := by
  have hasked := h.asked (.getLabel (s.directory.node r).id)
  refine Call.Ends.getThen (((h.getLabel_ends _).impFailed ?_).andThen
    fun label t ht => ?_)
  · rintro failure t ⟨ht, hplanned | ⟨hmissing, rfl⟩⟩
    · exact ⟨ht, .planned hplanned⟩
    · exact ⟨ht, .missing hmissing⟩
  · obtain ⟨hid, rfl⟩ := ht
    have hpushed := hasked.orderly.pushed (x := .ofRecord (s.directory.node r).kind label) (by
      change (s.directory.node r).kind = .category ↔ isCategoryId label.id = true
      rw [hid]
      exact (h.coherent.nodes r).kind)
    exact ⟨hasked.trans hpushed, rfl, _, Array.getElem?_push_size, hid, rfl⟩

/-- The label of a node is its own, whether it is loaded now or was since the last refresh. -/
theorem entity_ends (r : NodeRef) : Call.Ends (entity r) s
    (fun e t => ∃ calls, s.Loads calls t ∧ calls.Sublist [.getLabel (s.directory.node r).id] ∧
      ∃ x, t.entity? e = some x ∧ x.id = (s.directory.node r).id)
    fun failure t => ∃ calls, s.Loads calls t ∧
      calls.Sublist [.getLabel (s.directory.node r).id] ∧ s.Unloaded r failure := by
  rw [entity]
  refine Call.Ends.getThen ?_
  cases hstanding : s.directory.standing r with
  | error failure =>
    obtain ⟨hevicted, rfl⟩ := Directory.evicted_of_standing hstanding
    exact ⟨[], h.loads, List.nil_sublist _, .evicted hevicted⟩
  | ok standing =>
    cases standing with
    | loaded e =>
      obtain ⟨x, hx, hid, -⟩ :=
        (h.coherent.nodes r).cached e _ (Directory.cached_of_standing hstanding)
      exact ⟨[], h.loads, List.nil_sublist _, x, hx, hid⟩
    | missing g =>
      obtain rfl := Directory.generation_of_standing hstanding
      change Call.Ends (load r >>= _) s _ _
      refine ((h.load_ends r).impFailed fun _ _ hfailed =>
        ⟨_, hfailed.1, List.Sublist.refl _, hfailed.2⟩).andThen fun e t hload => ?_
      obtain ⟨hloads, hdirectory, x, hx, hid, hkind⟩ := hload
      have hkept := hloads.orderly.kept hx (hdirectory ▸ hid) (hdirectory ▸ hkind)
      rw [congrArg Directory.generation hdirectory] at hkept
      exact ⟨_, hloads.trans hkept, List.Sublist.refl _, x, hx, hid⟩

/-- A refresh asks for the listing once and rebuilds the tree from the labels of the store, or does
nothing else. -/
theorem refresh_ends : Call.Ends refresh s
    (fun _ t => t.Orderly ∧ t.entities = s.entities ∧
      t.directory = (Session.refreshed s.directory s.outside.store.labels.values).2 ∧
      t.outside.store = s.outside.store.asked .listLabels)
    fun failure t => s.Loads [.listLabels] t ∧
      s.outside.store.planned.get? .listLabels = some failure := by
  have hasked := h.asked .listLabels
  have hend : Call.Ends (onOutside (MailService.listLabels (σ := Bench))) s
      (fun records t => records = s.outside.store.labels.values ∧
        t = s.withStore (s.outside.store.asked .listLabels))
      fun failure t => s.Loads [.listLabels] t ∧
        s.outside.store.planned.get? .listLabels = some failure := by
    refine ends_onStore ?_
    rw [Call.Ends, Store.listLabels_eq]
    cases hplanned : s.outside.store.planned.get? .listLabels with
    | some failure => exact ⟨hasked, rfl⟩
    | none => exact ⟨rfl, rfl⟩
  refine hend.andThen fun records t ht => ?_
  obtain ⟨rfl, rfl⟩ := ht
  exact ⟨hasked.orderly.refreshed _, rfl, rfl, rfl⟩

end Orderly

/-! ### Operations -/

/-- A computation that leaves an orderly session orderly, with the loaded labels that it has. -/
def Orders (x : Op Bench α) : Prop :=
  ∀ s : Session Bench, s.Orderly → s.Continues (x.run s).2

namespace Orders

theorem of_ends {x : Op Bench α} (h : ∀ s : Session Bench, s.Orderly →
    Call.Ends x s (fun _ => s.Continues) fun _ => s.Continues) : Orders x :=
  fun s hs => (h s hs).state

theorem of_outside {x : Op Bench α} {f : Bench → Bench}
    (hx : ∀ s, (x.run s).2 = { s with outside := f s.outside })
    (hf : ∀ b, b.store.Indexed → (f b).store.Indexed) : Orders x := by
  intro s hs
  rw [hx]
  exact ⟨hs.withOutside (hf _ hs.indexed), fun _ y hy => ⟨y, hy, rfl, rfl⟩⟩

theorem bind {x : Op Bench α} {f : α → Op Bench β} (hx : Orders x) (hf : ∀ a, Orders (f a)) :
    Orders (x >>= f) := by
  intro s hs
  have hfirst := hx s hs
  rw [Call.run_bind]
  rcases hrun : x.run s with ⟨failure | a, t⟩ <;> rw [hrun] at hfirst
  · exact hfirst
  · exact hfirst.trans (hf a t hfirst.orderly)

theorem refresh : Orders (refresh (σ := Bench)) := by
  refine of_ends fun _ hs => hs.refresh_ends.imp (fun _ t ht => ?_) fun _ _ ht => ht.1.continues
  obtain ⟨horderly, hentities, -⟩ := ht
  refine ⟨horderly, fun e x hx => ⟨x, ?_, rfl, rfl⟩⟩
  rw [entity?, hentities]
  exact hx

theorem entity (r : NodeRef) : Orders (entity (σ := Bench) r) :=
  of_ends fun _ hs => (hs.entity_ends r).imp (fun _ _ ⟨_, ht, _⟩ => ht.continues)
    fun _ _ ⟨_, ht, _⟩ => ht.continues

theorem invalidate (r : NodeRef) : Orders (invalidate (σ := Bench) r) := by
  intro s hs
  obtain ⟨listings, hstands⟩ := hs.coherent.stands
  let f : Label.Node → Label.Node := fun n => { n with cached := none }
  have hnodes := fun q => Directory.holds_modifyNode (f := f)
    (fun _ hn => ⟨hn.kind, fun _ _ hnone => nomatch hnone⟩) r (hs.coherent.nodes q)
  have hstands := hstands.modifyNode f (fun _ => rfl) (fun _ => rfl) (fun _ => rfl) r
  have htended := hs.tended.modifyNode f (fun _ => rfl) (fun _ => rfl) (fun _ => rfl)
    (fun _ _ _ hnone => nomatch hnone) r
  exact ⟨hs.withDirectory (d := s.directory.modifyNode r f)
    ⟨⟨listings, hstands⟩, hnodes, hs.coherent.entities, Store.initial_sound⟩ htended,
    fun _ x hx => ⟨x, hx, rfl, rfl⟩⟩

theorem reload (e : EntityRef) : Orders (reload (σ := Bench) e) := by
  refine of_ends fun s hs => Call.Ends.getThen (((hs.getLabel_ends _).impFailed
    fun _ _ ht => ht.1.continues).andThen fun label _ ht => .of_run rfl ?_)
  obtain ⟨-, rfl⟩ := ht
  exact hs.updated (s.outside.store.asked _) (hs.indexed.of_labels rfl) e label

theorem parts : Parts (σ := Bench) Orders where
  state hstate hy s hs := by
    rw [hstate s]
    exact hy s hs
  pure _ := fun _ hs => hs.continues
  get := fun _ hs => hs.continues
  bind := bind
  request hx := of_outside (fun _ => rfl) fun _ hb => hx.indexed hb
  refresh := refresh
  entity := entity
  invalidate := invalidate
  reload := reload
  now := of_outside (f := fun b => (Clock.now b).2) (fun _ => rfl) fun _ hb => hb
  sleep delay := of_outside (f := fun b => (Clock.sleep delay b).2) (fun _ => rfl) fun _ hb => hb

theorem operation (o : Operation) : Orders (o.op (σ := Bench)) :=
  parts.operation o (.inr (of_outside (f := fun b => (MailService.listLabels.run b).2)
    (fun _ => rfl) fun _ hb => hb.listLabels.state))

end Orders

/-! ### Runs -/

/-- A session that was just opened on a store that keeps every label under its own id. -/
structure New (s : Session Bench) : Prop where
  directory : s.directory = .initial
  entities : s.entities = #[]
  indexed : s.outside.store.Indexed

theorem New.orderly (h : s.New) : s.Orderly :=
  ⟨.fresh h.directory h.entities Store.initial_sound, h.directory ▸ Directory.tended_initial,
    h.indexed⟩

/-- A session that is opened on a store. -/
def opened (store : Store) : Session Bench := { outside := { store } }

theorem opened_new {store : Store} (h : store.Indexed) : (opened store).New := ⟨rfl, rfl, h⟩

/-- The sessions that come of one by operations, whether they fail or not. Between operations the
outside world may change, to any store that keeps every label under its own id. -/
inductive Leads (first : Session Bench) : Session Bench → Prop
  | start : Leads first first
  | outside {s : Session Bench} (b : Bench) :
      b.store.Indexed → Leads first s → Leads first { s with outside := b }
  | step {s : Session Bench} (o : Operation) : Leads first s → Leads first (o.after s)

theorem Leads.continues {first : Session Bench} (hfirst : first.Orderly) (h : Leads first t) :
    first.Continues t := by
  induction h with
  | start => exact hfirst.continues
  | outside b hb _ ih =>
    exact ih.trans ⟨ih.orderly.withOutside hb, fun _ x hx => ⟨x, hx, rfl, rfl⟩⟩
  | step o _ ih => exact ih.trans (Orders.operation o _ ih.orderly)

end Mailroom.Session
