import Mailroom.Proofs.Label.Moving
import Mailroom.Proofs.Session.Requests
import Mailroom.Proofs.Session.Tracking

/-! Which label a word stands for. A word is tried as an id before it is tried as a name, so a label
of the user is found by its name as long as the name is not the id of another label in use. What is
then done to the label is done by one id. -/

namespace Mailroom.Label.Directory

open Session (userLabels)

/-- The node that a word stands for, as an id or else as a name. -/
def find? (d : Directory) (word : String) : Option NodeRef :=
  (d.registry.byId.get? word).or (d.registry.byName.get? word)

/-- Whether an id is that of a listed label of the user or of a fixed label that is in use. -/
def Registers (labels : List Tag) (id : String) : Prop :=
  (∃ l ∈ labels, l.id = id) ∨
    ∃ f ∈ initial.fixed, (initial.node f).id = id ∧ ¬initial.Takes labels f

instance (labels : List Tag) (id : String) : Decidable (Registers labels id) :=
  inferInstanceAs (Decidable ((∃ l ∈ labels, l.id = id) ∨
    ∃ f ∈ initial.fixed, (initial.node f).id = id ∧ ¬initial.Takes labels f))

/-- The id of the label that the name of a label of the user stands for: the name itself if it is
the id of a label, and the label's own id otherwise. -/
def addressed (labels : List Tag) (l : Tag) : String :=
  if Registers labels l.name then l.name else l.id

theorem registers_of_byId {labels : List Tag} (hfree : initial.Free labels) {id : String}
    {r : NodeRef} (h : (initial.rebuild labels).directory.registry.byId.get? id = some r) :
    Registers labels id := by
  have hbased := fresh_initial.based
  obtain ⟨hrebuilt, hfixed⟩ := hbased.rebuild plain_initial hfree
  rcases hbased.confined_rebuild labels _ (Table.mem_of_get? h) with hf | hlisted
  · have hid := (hrebuilt.node_id hf).symm.trans (hrebuilt.keyed.of_get? h).2
    exact Or.inr ⟨r, hf, hid, (hfixed r hf).1.mp (hid ▸ h)⟩
  · exact Or.inl hlisted

/-- A node that a word stands for: it has the id, and its label has to be loaded. -/
structure Addresses (d : Directory) (word id : String) (r : NodeRef) : Prop where
  found : d.find? word = some r
  standing : d.standing r = .ok (.missing d.generation)
  kind : (d.node r).kind = .user ↔ isFixedId id = false
  id : (d.node r).id = id

section Listing

variable {records : List Remote.LabelRecord} (hids : ((userLabels records).map Tag.id).Nodup)
  (hnames : ((userLabels records).map Tag.name).Nodup)
include hids hnames

theorem finds_label {l : Tag} (hl : l ∈ userLabels records) : ∃ r,
    (initial.rebuild (userLabels records)).directory.registry.byId.get? l.id = some r ∧
    (initial.rebuild (userLabels records)).directory.registry.byName.get? l.name = some r ∧
    ((initial.rebuild (userLabels records)).directory.node r).evicted = false :=
  fresh_initial.living_registered.rebuild_finds fresh_initial.based hids hl
    (fun _ hm => List.inj_on_of_nodup_map hnames hm hl) (free_userLabels records l hl)

theorem exists_byId {id : String} (h : Registers (userLabels records) id) : ∃ r,
    (initial.rebuild (userLabels records)).directory.registry.byId.get? id = some r ∧
    ((initial.rebuild (userLabels records)).directory.node r).evicted = false := by
  rcases h with ⟨l, hl, rfl⟩ | ⟨f, hf, rfl, htakes⟩
  · obtain ⟨r, hfound, -, hliving⟩ := finds_label hids hnames hl
    exact ⟨r, hfound, hliving⟩
  · obtain ⟨hfound, hevicted, hmarked⟩ :=
      (fresh_initial.based.rebuild plain_initial (free_userLabels records)).2 f hf
    refine ⟨f, hfound.mpr htakes, Bool.eq_false_iff.mpr fun hgone => ?_⟩
    rcases hmarked.mp hgone with hbefore | hnow
    · cases hbefore.symm.trans (fresh_initial.living f)
    · exact htakes (hevicted.mp hnow).2

/-- After the first refresh the name of a label of the user stands for a label that has to be
loaded. -/
theorem exists_addressed {l : Tag} (hl : l ∈ userLabels records) : ∃ r,
    Addresses (Session.refreshed initial records).2 l.name (addressed (userLabels records) l)
      r := by
  have hkeyed := fresh_initial.based.keyed
  obtain ⟨-, hcached⟩ := tended_initial.refreshed hkeyed records
  have hbased := (fresh_initial.stands.refreshed records).based
  have hkind : ∀ r, ((Session.refreshed initial records).2.node r).kind = .user ↔
      isFixedId ((Session.refreshed initial records).2.node r).id = false := fun r =>
    holds_rebuild (P := fun n => n.kind = .user ↔ isFixedId n.id = false)
      ⟨fun _ _ _ _ _ h => h, fun _ h => h⟩ hkeyed
      (holds_initial (P := fun n => n.kind = .user ↔ isFixedId n.id = false)
        (by decide) (by decide +kernel) r)
      fun m hm => iff_of_true rfl (isFixedId_userLabels hm)
  have haddresses : ∀ {id r}, (Session.refreshed initial records).2.find? l.name = some r →
      (Session.refreshed initial records).2.registry.byId.get? id = some r →
      ((Session.refreshed initial records).2.node r).evicted = false →
      Addresses (Session.refreshed initial records).2 l.name id r := by
    intro id r hfound hid hliving
    obtain ⟨-, rfl⟩ := hbased.keyed.of_get? hid
    exact ⟨hfound, standing_of_older hliving (hcached r), hkind r, rfl⟩
  rw [addressed]
  by_cases hid : Registers (userLabels records) l.name
  · obtain ⟨r, hfound, hliving⟩ := exists_byId hids hnames hid
    rw [if_pos hid]
    exact ⟨r, haddresses (Option.or_eq_some_iff.mpr (Or.inl hfound)) hfound hliving⟩
  · obtain ⟨r, hfound, hnamed, hliving⟩ := finds_label hids hnames hl
    rw [if_neg hid]
    refine ⟨r, haddresses (Option.or_eq_some_iff.mpr (Or.inr ⟨?_, hnamed⟩)) hfound hliving⟩
    exact Option.eq_none_iff_forall_ne_some.mpr fun q hq =>
      hid (registers_of_byId (free_userLabels records) hq)

end Listing

end Mailroom.Label.Directory

namespace Mailroom.Session

open Label (EntityRef NodeRef isFixedId)
open Label.Directory (Addresses)
open Remote (Client LabelRecord MailService Request RoundTrip Taped Wire)

section Words

variable {σ : Type} [MailService σ]

/-- The label that a word stands for. -/
def lookUp (word : String) : Op σ EntityRef := do
  match (← get).directory.registry.byId.get? word with
  | some r => entity r
  | none => labelByName word

/-- The label of the user that a word stands for. -/
def lookUpUser (word : String) : Op σ EntityRef := do
  let e ← lookUp word
  let s ← get
  if s.entityKind e = .user then return e
  else throw (.notFound ("user label \"" ++ s.entityName e ++ "\""))

theorem lookUp_run {s : Session σ} {word : String} {r : NodeRef}
    (h : s.directory.find? word = some r) : (lookUp word).run s = (entity r).run s := by
  rw [lookUp, Call.run_bind, Call.run_get]
  rcases Option.or_eq_some_iff.mp h with hid | ⟨hid, hname⟩
  · simp only [hid]
  · have hnode : (nodeByName word).run s = (.ok r, s) := by
      simp only [nodeByName, Call.run_bind, Call.run_get, Label.Registry.getByName, hname]
      rfl
    simp only [hid, labelByName, Call.run_bind, hnode]

/-- The label of the user that a word stands for is loaded under its id and kept for its node. -/
theorem lookUpUser_run {s : Session σ} {o : σ} {word id : String} {r : NodeRef}
    {record : LabelRecord} (h : Addresses s.directory word id r) (huser : isFixedId id = false)
    (hget : (MailService.getLabel id).run s.outside = (.ok record, o)) :
    (lookUpUser word).run s = (.ok ⟨s.entities.size⟩, { s with
      outside := o
      directory := s.directory.keep r ⟨s.entities.size⟩ s.directory.generation
      entities := s.entities.push (.ofRecord .user record) }) := by
  have hkind : (s.directory.node r).kind = .user := h.kind.mpr huser
  have hentity := entity_run r s
  simp only [h.standing, load_run, h.id, hget, hkind] at hentity
  rw [lookUpUser, Call.run_bind, lookUp_run h.found, hentity]
  simp only [Call.run_bind, Call.run_get]
  rw [if_pos]
  · rfl
  · refine entityKind_of_entity? (x := .ofRecord .user record) ?_
    exact Array.getElem?_push_size

end Words

/-- A tape on which every label that was asked for by its id is answered with one of that id. -/
def Faithful (tape : List RoundTrip) : Prop :=
  ∀ id v, (.getLabel id, .ok v) ∈ tape → (LabelRecord.ofValue v id).id = id

variable {ω α : Type} [Wire ω] [Clock ω] {s : Session (Client (Taped ω))} {word id : String}
  {r : NodeRef}

theorem lookUp_sends (h : Addresses s.directory word id r) :
    Pursues (lookUp word) s [.getLabel id] fun e t =>
      (Faithful t.tape → t.entityId e = id) ∧ (t.entityKind e = .user ↔ isFixedId id = false) := by
  have hentity := entity_sends s h.standing
  simp only [h.id] at hentity
  rw [Pursues, Call.Ends, lookUp_run h.found]
  refine Pursues.imp hentity fun e t ht => ?_
  obtain ⟨v, hlast, hloaded⟩ := ht
  refine ⟨fun hfaithful => ?_, ?_⟩
  · rw [entityId_of_entity? hloaded]
    exact hfaithful id v (List.mem_of_getLast? hlast)
  · rw [entityKind_of_entity? hloaded]
    exact h.kind

/-- The requests for an operation on the label of the user that a word stands for, if they go by the
label's id. -/
theorem lookUpUser_sends (h : Addresses s.directory word id r) (plan : String → List Request)
    {f : EntityRef → Op (Client (Taped ω)) α}
    (hf : ∀ e t, Pursues (f e) t (plan (t.entityId e)) fun _ _ => True) :
    let t := ((lookUpUser word >>= f).run s).2
    Faithful t.tape → ∃ isDelivered,
      Sends s (.getLabel id :: if isFixedId id then [] else plan id) isDelivered t := by
  let P := fun t : Session (Client (Taped ω)) => Faithful t.tape → ∃ isDelivered,
    Sends s ([.getLabel id] ++ if isFixedId id then [] else plan id) isDelivered t
  refine Call.Ends.state (P := P) ?_
  rw [lookUpUser, bind_assoc]
  refine (Call.Ends.impFailed (lookUp_sends h) fun _ t hstop _ =>
    ⟨false, hstop.stop _⟩).andThen fun e t ht => ?_
  obtain ⟨hsends, hid, hkind⟩ := ht
  rw [bind_assoc]
  refine Call.Ends.getThen ?_
  split
  case isTrue huser =>
    -- The answers on the tape so far are still there in the end.
    have hend : ∀ isDelivered u, Sends t (plan (t.entityId e)) isDelivered u → P u := by
      intro isDelivered u hmore hfaithful
      rw [hid fun i v hv => hfaithful i v (hmore.tape_subset hv)] at hmore
      rw [if_neg (by simp [hkind.mp huser])]
      exact ⟨isDelivered, hsends.trans hmore⟩
    rw [pure_bind]
    exact Call.Ends.imp (hf e t) (fun _ u hu => hend true u hu.1) fun _ u => hend false u
  case isFalse hother =>
    intro _
    rw [if_pos (by simpa [hkind] using hother), List.append_nil]
    exact ⟨true, hsends⟩

end Mailroom.Session
