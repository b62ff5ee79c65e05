import Mailroom.Proofs.Label.Takeover
import Mailroom.Proofs.Session.Basic
import Mailroom.Remote.Store
import Mailroom.Session.Labels

/-! The fixed labels over the refreshes of a session. A refresh that fails leaves the directory
alone, and loading a label only keeps it beside its node, so how a fixed label stands is decided by
the listings that were answered: it stays in use as long as none of them has a label of the user
with its display name. -/

namespace Mailroom.Label.Directory

open Session (userLabels)

theorem plain_initial : initial.Plain :=
  ⟨fresh_initial.proper, by decide +kernel⟩

theorem isFixedId_initial : ∀ f ∈ initial.fixed, isFixedId (initial.node f).id = true := by
  decide +kernel

theorem isFixedId_userLabels {records : List Remote.LabelRecord} {l : Tag}
    (hl : l ∈ userLabels records) : isFixedId l.id = false := by
  obtain ⟨r, hr, rfl⟩ := List.mem_map.mp hl
  have hfree := (Bool.and_eq_true_iff.mp (List.mem_filter.mp hr).2).2
  exact (Bool.not_eq_true' _).mp hfree

/-- The labels of the user in a listing have other ids than the fixed labels. -/
theorem free_userLabels (records : List Remote.LabelRecord) :
    initial.Free (userLabels records) := by
  intro l hl f hf hid
  have hfixed := isFixedId_initial f hf
  rw [← hid, isFixedId_userLabels hl] at hfixed
  cases hfixed

namespace Stands

variable {s d : Directory} {listings : List (List Tag)}

theorem keep (h : Stands s d listings) (r : NodeRef) (e : EntityRef) (g : Nat) :
    Stands s (d.keep r e g) listings := by
  refine h.transfer rfl rfl fun q hq => ⟨(has_modifyNode _).mpr hq, ?_, ?_⟩
  · have hid := field_modifyNode (d := d) (r := r)
      (f := fun n => { n with cached := some (e, g) }) Node.id (fun _ => rfl) q
    have hname := field_modifyNode (d := d) (r := r)
      (f := fun n => { n with cached := some (e, g) }) Node.name (fun _ => rfl) q
    exact congrArg₂ Tag.mk hid hname
  · exact field_modifyNode (f := fun n => { n with cached := some (e, g) }) Node.evicted
      (fun _ => rfl) q

theorem refreshed (h : Stands initial d listings) (records : List Remote.LabelRecord) :
    Stands initial (Session.refreshed d records).2 (listings ++ [userLabels records]) :=
  (h.rebuild plain_initial (free_userLabels records)).transfer rfl rfl fun _ hr => ⟨hr, rfl, rfl⟩

end Stands

end Mailroom.Label.Directory

namespace Mailroom.Session

open Label (Directory NodeRef)
open Remote (LabelRecord MailService Store)

section Runs

variable {σ : Type} [MailService σ]

/-! ### What the operations do to the directory -/

theorem refresh_run (s : Session σ) : refresh.run s =
    match (MailService.listLabels (σ := σ)).run s.outside with
    | (.ok records, outside) =>
      (.ok (refreshed s.directory records).1,
        { s with outside, directory := (refreshed s.directory records).2 })
    | (.error failure, outside) => (.error failure, { s with outside }) := by
  simp only [refresh, Call.run_bind, run_onOutside]
  rcases (MailService.listLabels (σ := σ)).run s.outside with ⟨failure | records, outside⟩
  · rfl
  · simp only [Call.run_get, Call.run_modify, Call.run_pure]

theorem load_run (r : NodeRef) (s : Session σ) : (load r).run s =
    match (MailService.getLabel (s.directory.node r).id).run s.outside with
    | (.ok record, outside) =>
      (.ok ⟨s.entities.size⟩, { s with
        outside, entities := s.entities.push (.ofRecord (s.directory.node r).kind record) })
    | (.error failure, outside) => (.error failure, { s with outside }) := by
  simp only [load, Call.run_bind, Call.run_get, run_onOutside]
  rcases (MailService.getLabel (s.directory.node r).id).run s.outside with
    ⟨failure | record, outside⟩
  · rfl
  · rfl

theorem entity_run (r : NodeRef) (s : Session σ) : (entity r).run s =
    match s.directory.standing r with
    | .error failure => (.error failure, s)
    | .ok (.loaded e) => (.ok e, s)
    | .ok (.missing generation) =>
      match (load r).run s with
      | (.ok e, t) => (.ok e, { t with directory := t.directory.keep r e generation })
      | (.error failure, t) => (.error failure, t) := by
  simp only [entity, Call.run_bind, Call.run_get]
  rcases s.directory.standing r with failure | (e | generation)
  · simp only [ofExcept, Call.run_throw]
  · simp only [ofExcept, Call.run_pure]
  · simp only [ofExcept, Call.run_pure, Call.run_bind]
    rcases (load r).run s with ⟨failure | e, t⟩
    · rfl
    · simp only [run_modifyDirectory]

theorem load_directory (r : NodeRef) (s : Session σ) :
    ((load r).run s).2.directory = s.directory := by
  rw [load_run]
  split <;> rfl

/-- Loading a label keeps it beside its node at most. -/
theorem entity_directory (r : NodeRef) (s : Session σ) :
    ((entity r).run s).2.directory = s.directory ∨
      ∃ e g, ((entity r).run s).2.directory = s.directory.keep r e g := by
  have hload := load_directory r s
  rw [entity_run]
  rcases s.directory.standing r with failure | (e | generation)
  · exact Or.inl rfl
  · exact Or.inl rfl
  · rcases hrun : (load r).run s with ⟨failure | e, t⟩
    · rw [hrun] at hload
      exact Or.inl hload
    · rw [hrun] at hload
      exact Or.inr ⟨e, generation, congrArg (·.keep r e generation) hload⟩

/-! ### Runs of refreshes -/

/-- The sessions that come of one by refreshing, with the listings that were answered on the way.
Between refreshes the outside world changes and labels are loaded, and refreshes may fail. -/
inductive Refreshes (first : Session σ) : List (List LabelRecord) → Session σ → Prop
  | start : Refreshes first [] first
  | outside {listings s} (o : σ) :
      Refreshes first listings s → Refreshes first listings { s with outside := o }
  | loaded {listings s t answer} (r : NodeRef) :
      Refreshes first listings s → (entity r).run s = (answer, t) → Refreshes first listings t
  | failed {listings s t failure} :
      Refreshes first listings s → refresh.run s = (.error failure, t) → Refreshes first listings t
  | refreshed {listings s t records evicted o} :
      Refreshes first listings s →
      (MailService.listLabels (σ := σ)).run s.outside = (.ok records, o) →
      refresh.run s = (.ok evicted, t) → Refreshes first (listings ++ [records]) t

end Runs

section Fixed

variable {σ : Type} [MailService σ] {first t : Session σ} {listings : List (List LabelRecord)}
  {f : NodeRef}

theorem Refreshes.stands (hfirst : first.directory = .initial) (h : Refreshes first listings t) :
    Directory.Stands .initial t.directory (listings.map userLabels) := by
  induction h with
  | start => exact hfirst ▸ Directory.fresh_initial.stands
  | outside _ _ ih => exact ih
  | @loaded _ s t answer r _ hrun ih =>
    have hdirectory := entity_directory r s
    rw [hrun] at hdirectory
    rcases hdirectory with heq | ⟨e, g, heq⟩
    · exact heq ▸ ih
    · exact heq ▸ ih.keep r e g
  | @failed _ s t _ _ hrun ih =>
    rw [refresh_run] at hrun
    split at hrun
    · cases hrun
    · cases hrun
      exact ih
  | @refreshed _ s t records _ o _ hlist hrun ih =>
    rw [refresh_run, hlist] at hrun
    cases hrun
    rw [List.map_append]
    exact ih.refreshed records

/-- A listing with a label of the user that has the display name of a fixed label. -/
def Taken (records : List LabelRecord) (f : NodeRef) : Prop :=
  Directory.initial.Takes (userLabels records) f

instance (records : List LabelRecord) (f : NodeRef) : Decidable (Taken records f) :=
  inferInstanceAs (Decidable (Directory.initial.Takes (userLabels records) f))

/-- How a fixed label stands after refreshes. It is found by its id unless the last listing has a
label of the user with its name; it is marked as evicted once any listing had one, and is then not
found any more; and it is among the evicted nodes of a refresh whose listing takes the name anew. -/
theorem fixed_over_refreshes (hfirst : first.directory = .initial)
    (h : Refreshes first listings t) (hf : f ∈ Directory.initial.fixed) :
    (t.directory.registry.getById (Directory.initial.node f).id = .ok f ↔
      ∀ last ∈ listings.getLast?, ¬Taken last f) ∧
    ((t.directory.node f).evicted = true ↔
      ∃ records ∈ listings, Taken records f) ∧
    ((∃ records ∈ listings, Taken records f) →
      (entity f).run t = (.error (.notFound ("label \"" ++ (Directory.initial.node f).name ++
        "\" (" ++ (Directory.initial.node f).id ++ ")")), t)) ∧
    ((¬∃ records ∈ listings, Taken records f) →
      ∃ standing, t.directory.standing f = .ok standing) ∧
    ∀ records o, (MailService.listLabels (σ := σ)).run t.outside = (.ok records, o) →
      ∃ evicted u, refresh.run t = (.ok evicted, u) ∧
        (f ∈ evicted ↔ Taken records f ∧
          ∀ last ∈ listings.getLast?, ¬Taken last f) := by
  have hstands := h.stands hfirst
  have hlast : (∀ last ∈ (listings.map userLabels).getLast?, ¬Directory.initial.Takes last f) ↔
      ∀ last ∈ listings.getLast?, ¬Taken last f := by
    simp [List.getLast?_map, Taken]
  have hmarked : (t.directory.node f).evicted = true ↔
      ∃ records ∈ listings, Taken records f := by
    rw [hstands.marked f hf]
    simp [Taken]
  refine ⟨?_, hmarked, fun htaken => ?_, fun hfree => ?_, fun records o hlist => ?_⟩
  · rw [← hlast, ← hstands.registered f hf, Label.Registry.getById]
    cases t.directory.registry.byId.get? (Directory.initial.node f).id <;> simp
  · have hstanding : t.directory.standing f = .error (.notFound ("label \"" ++
        (Directory.initial.node f).name ++ "\" (" ++ (Directory.initial.node f).id ++ ")")) := by
      rw [← hstands.based.node_name hf, ← hstands.based.node_id hf]
      exact if_pos (hmarked.mpr htaken)
    rw [entity_run, hstanding]
  · have hunmarked : (t.directory.node f).evicted = false :=
      Bool.eq_false_iff.mpr fun hevicted => hfree (hmarked.mp hevicted)
    simp only [Directory.standing, hunmarked, Bool.false_eq_true, if_false]
    cases (t.directory.node f).cached <;> exact ⟨_, rfl⟩
  · refine ⟨_, _, by rw [refresh_run, hlist], ?_⟩
    rw [← hlast]
    exact hstands.mem_evicted_iff Directory.plain_initial (Directory.free_userLabels records) hf

/-- A label of the user is named as the inbox is displayed: the first refresh evicts the inbox,
which is not found by its id any more and answers that it is not found. -/
theorem fixed_over_refreshes_inbox :
    let store : Store := (Store.initial.seedLabel "Inbox" (some "Label_1")).2
    let first : Session Store := { outside := store }
    let inbox := Directory.system .inbox
    first.directory = .initial ∧ inbox ∈ Directory.initial.fixed ∧ ∃ evicted t,
      refresh.run first = (.ok evicted, t) ∧ Refreshes first [store.labels.values] t ∧
      inbox ∈ evicted ∧ t.directory.registry.getById "INBOX" ≠ .ok inbox ∧
      (entity inbox).run t = (.error (.notFound "label \"Inbox\" (INBOX)"), t) := by
  intro store first inbox
  have hfixed : inbox ∈ Directory.initial.fixed := by decide +kernel
  have hlist : (MailService.listLabels (σ := Store)).run store =
      (.ok store.labels.values, { store with calls := [.listLabels] }) := rfl
  have htaken : Taken store.labels.values inbox := by decide +kernel
  have hstart : Refreshes first [] first := Refreshes.start
  obtain ⟨-, -, -, -, hrefresh⟩ := fixed_over_refreshes rfl hstart hfixed
  obtain ⟨evicted, t, hrun, hevicted⟩ := hrefresh _ _ hlist
  have hrefreshes : Refreshes first [store.labels.values] t := hstart.refreshed hlist hrun
  obtain ⟨hfound, -, hentity, -, -⟩ := fixed_over_refreshes rfl hrefreshes hfixed
  refine ⟨rfl, hfixed, evicted, t, hrun, hrefreshes, hevicted.mpr ⟨htaken, by simp⟩, ?_, ?_⟩
  · exact fun hok => hfound.mp hok _ rfl htaken
  · exact hentity ⟨_, List.mem_singleton_self _, htaken⟩

end Fixed

end Mailroom.Session
