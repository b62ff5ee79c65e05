import Mailroom.Proofs.Label.Relisting
import Mailroom.Proofs.Remote.Unsteady
import Mailroom.Proofs.Session.Handles
import Mailroom.Proofs.Session.Hierarchy

/-! Deletions of labels, with a failure possible at every request. A deletion is a fixed row of
requests: the label itself, on demand a listing and the labels below in the order of the listing,
and the listing of the refresh. Where it breaks off, what was deleted before is gone and the session
is as it was; where it does not, the tree is that of the labels that remain, on the nodes that these
had. -/

namespace Mailroom.Session

open Label (Directory Entity EntityRef NodeRef Proper)
open Label.Directory (Based Shows Stands)
open Remote (LabelRecord MailService Request Store Unsteady)
open Remote.Unsteady (Answered Broken Refused)

/-! ### Directories that were refreshed -/

theorem stands_foldl_reconciled (listings : List (List LabelRecord)) :
    ∃ seen, Stands .initial (listings.foldl reconciled .initial) seen := by
  induction listings using List.reverseRecOn with
  | nil => exact ⟨[], Directory.fresh_initial.stands⟩
  | append_singleton listings records ih =>
    obtain ⟨seen, hseen⟩ := ih
    rw [List.foldl_concat]
    exact ⟨_, hseen.refreshed records⟩

theorem shows_reconciled {d : Directory} (h : Based .initial d) {records : List LabelRecord}
    (hp : Proper (userLabels records)) :
    (reconciled d records).Shows (userLabels records) :=
  (h.shows_rebuild hp).1.transfer rfl rfl rfl fun _ => rfl

/-- A directory that was refreshed with a listing last. -/
theorem shows_of_bare {d : Directory} {past : List (List LabelRecord)} {records : List LabelRecord}
    (h : d.bare = (past ++ [records]).foldl reconciled .initial)
    (hp : Proper (userLabels records)) : Based .initial d ∧ d.Shows (userLabels records) := by
  obtain ⟨_, hbefore⟩ := stands_foldl_reconciled past
  obtain ⟨_, hstands⟩ := stands_foldl_reconciled (past ++ [records])
  have hshows : d.bare.Shows (userLabels records) := by
    rw [h, List.foldl_concat]
    exact shows_reconciled hbefore.based hp
  rw [← h] at hstands
  exact ⟨hstands.of_bare.based, hshows.of_bare⟩

theorem userLabels_sublist {few records : List LabelRecord} (h : few.Sublist records) :
    (userLabels few).Sublist (userLabels records) := (h.filter _).map _

/-- A directory reconciled with fewer labels than it shows: those that remain keep their nodes. -/
theorem shows_fewer {d : Directory} (hbased : Based .initial d) {records few : List LabelRecord}
    (hshows : d.Shows (userLabels records)) (hp : Proper (userLabels records))
    (hfew : few.Sublist records) : (reconciled d few).Shows (userLabels few) ∧
      (reconciled d few).IsTreeOf (userLabels few) d.nodeOf := by
  obtain ⟨hafter, hkept⟩ := hshows.relisted hbased hp (userLabels_sublist hfew)
  have hfewer : (reconciled d few).Shows (userLabels few) :=
    hafter.transfer rfl rfl rfl fun _ => rfl
  exact ⟨hfewer, hfewer.tree.congr fun l hl => (hkept l hl).symm⟩

theorem proper_userLabels {store : Store} (h : store.Neat)
    (hnames : ((userLabels store.labels.values).map (·.name)).Nodup)
    (hnonempty : ∀ l ∈ userLabels store.labels.values, l.name ≠ "") :
    Proper (userLabels store.labels.values) := ⟨nodup_userLabels h, hnames, hnonempty⟩

/-! ### The requests of a deletion -/

/-- The requests that a deletion makes when none of them fails. -/
def deletion (labels : Table String LabelRecord) (id name : String) : Bool → List Request
  | false => [.deleteLabel id, .listLabels]
  | true => .deleteLabel id :: .listLabels ::
      (below name (labels.remove id).values).map (fun r => .deleteLabel r.id) ++ [.listLabels]

/-- The labels that a deletion leaves. -/
def remaining (labels : Table String LabelRecord) (id name : String) :
    Bool → Table String LabelRecord
  | false => labels.remove id
  | true => Store.labelsBeside labels id name

theorem remaining_sublist (labels : Table String LabelRecord) (id name : String)
    (recursive : Bool) :
    (remaining labels id name recursive).values.Sublist labels.values := by
  cases recursive <;> exact List.filter_sublist.map _

theorem without_deletion {store : Store} (h : store.Neat) (id name : String) (recursive : Bool) :
    Store.without store.labels
        ((deletion store.labels id name recursive).filterMap Unsteady.deleted?) =
      remaining store.labels id name recursive := by
  cases recursive with
  | false => exact Store.without_singleton _ id
  | true =>
    have hids : (deletion store.labels id name true).filterMap Unsteady.deleted? =
        [id] ++ (below name (store.labels.remove id).values).map (·.id) := by
      rw [deletion, List.filterMap_append, List.filterMap_cons, List.filterMap_cons,
        List.filterMap_map]
      exact congrArg (id :: ·) ((List.append_nil _).trans (congrFun List.filterMap_eq_map _))
    rw [hids, ← Store.without_append, Store.without_singleton, Store.below_eq,
      (h.remove id).without_filter (Store.isBelow name)]
    exact Store.labelsBeside_eq store.labels id name

/-! ### Requests of a session -/

/-- A session of which nothing changed but what is outside, where requests were answered. -/
structure Underway (s : Session Unsteady) (rs : List Request) (t : Session Unsteady) : Prop where
  same : t = { s with outside := t.outside }
  answered : Answered s.outside rs t.outside

/-- A session of which nothing changed but what is outside, where requests were broken off. -/
structure Stopped (s : Session Unsteady) (rs : List Request) (failure : Failure)
    (t : Session Unsteady) : Prop where
  same : t = { s with outside := t.outside }
  broken : Broken s.outside rs failure t.outside

namespace Underway

variable {s t : Session Unsteady} {before after rs : List Request} {r : Request}

theorem start (s : Session Unsteady) : Underway s [] s := ⟨rfl, .nil _⟩

/-- One request more: it is answered, or the rest is broken off. -/
theorem request {α : Type} (h : Underway s before t) {x : Call Unsteady α}
    {Q : α → Unsteady → Prop} (hx : Call.Ends x t.outside
      (fun a v => Q a v ∧ Answered t.outside [r] v) (Refused t.outside r))
    (hrs : rs = before ++ r :: after) :
    Call.Ends (onOutside x) t (fun a u => Q a u.outside ∧ Underway s (before ++ [r]) u)
      (Stopped s rs) := by
  unfold Call.Ends at hx ⊢
  rw [run_onOutside]
  rcases hrun : x.run t.outside with ⟨failure | a, v⟩ <;> rw [hrun] at hx
  · refine ⟨?_, hrs ▸ h.answered.broken hx after⟩
    rw [h.same]
  · refine ⟨hx.1, ?_, h.answered.concat hx.2⟩
    rw [h.same]

theorem listLabels (h : Underway s before t) (hrs : rs = before ++ .listLabels :: after) :
    Call.Ends (onOutside (MailService.listLabels (σ := Unsteady))) t (fun records u =>
      (records = t.outside.store.labels.values ∧
        u.outside.store.labels = t.outside.store.labels) ∧ Underway s (before ++ [.listLabels]) u)
      (Stopped s rs) := by
  refine h.request (Q := fun records v => records = t.outside.store.labels.values ∧
    v.store.labels = t.outside.store.labels) ?_ hrs
  refine (Unsteady.listLabels_ends t.outside).impDone fun records v hv => ?_
  exact ⟨⟨hv.1, hv.2.labels.trans (Store.without_nil _)⟩, hv.2⟩

theorem deleteLabel (h : Underway s before t) {id : String}
    (hthere : t.outside.store.labels.has id = true)
    (hrs : rs = before ++ .deleteLabel id :: after) :
    Call.Ends (onOutside (MailService.deleteLabel (σ := Unsteady) id)) t (fun _ u =>
      u.outside.store.labels = t.outside.store.labels.remove id ∧
        Underway s (before ++ [.deleteLabel id]) u) (Stopped s rs) := by
  refine h.request (Q := fun _ v => v.store.labels = t.outside.store.labels.remove id) ?_ hrs
  refine (Unsteady.deleteLabel_ends hthere).impDone fun _ v hv => ?_
  exact ⟨hv.labels.trans (Store.without_singleton _ id), hv⟩

/-- Labels deleted one after the other, up to the first that cannot be. -/
theorem deleteLabels {records : List LabelRecord} (h : Underway s before t)
    (hids : (records.map (·.id)).Nodup)
    (hthere : ∀ r ∈ records, t.outside.store.labels.has r.id = true)
    (hrs : rs = before ++ (records.map fun r => .deleteLabel r.id) ++ after) :
    Call.Ends (records.forM fun r => onOutside (MailService.deleteLabel (σ := Unsteady) r.id)) t
      (fun _ u => Underway s (before ++ records.map fun r => .deleteLabel r.id) u)
      (Stopped s rs) := by
  induction records generalizing t before with
  | nil =>
    rw [List.map_nil, List.append_nil]
    exact h
  | cons r records ih =>
    obtain ⟨hnew, hrest⟩ := List.nodup_cons.mp hids
    rw [List.map_cons, List.append_assoc, List.cons_append] at hrs
    rw [List.forM, List.map_cons, List.append_cons]
    refine (h.deleteLabel (hthere r List.mem_cons_self) hrs).andThen fun _ u hu => ?_
    refine ih hu.2 hrest (fun q hq => ?_) (by rw [hrs]; simp)
    have hne : q.id ≠ r.id := fun heq => hnew (List.mem_map.mpr ⟨q, hq, heq⟩)
    rw [hu.1, Table.has, Table.get?_remove, if_neg hne]
    exact hthere q (List.mem_cons_of_mem _ hq)

/-- A refresh at the end is one request, and the tree is changed only when it is answered. -/
theorem refresh (h : Underway s before t) (hrs : rs = before ++ [.listLabels]) :
    Call.Ends refresh t (fun _ u => Answered s.outside rs u.outside ∧
      u = { s with outside := u.outside
                   directory := reconciled s.directory u.outside.store.labels.values })
      (Stopped s rs) := by
  refine (h.listLabels hrs).andThen fun records u hu => ?_
  obtain ⟨⟨rfl, hlabels⟩, hreached⟩ := hu
  refine ⟨hrs ▸ hreached.answered, ?_⟩
  change { u with directory := reconciled u.directory t.outside.store.labels.values } =
    { s with outside := u.outside
             directory := reconciled s.directory u.outside.store.labels.values }
  rw [hlabels, hreached.same]

end Underway

variable {s : Session Unsteady} {e : EntityRef} {x : Entity}

/-- A deletion makes its requests in order, and the session changes when all were answered. -/
theorem deleteLabel_requests (hstore : s.outside.store.Neat) (hx : s.entity? e = some x)
    (hthere : s.outside.store.labels.has x.id = true) (recursive : Bool) :
    Call.Ends (deleteLabel e recursive) s (fun _ t =>
      Answered s.outside (deletion s.outside.store.labels x.id x.name recursive) t.outside ∧
      t = { s with outside := t.outside
                   directory := reconciled s.directory t.outside.store.labels.values })
      (Stopped s (deletion s.outside.store.labels x.id x.name recursive)) := by
  rw [deleteLabel]
  refine Call.Ends.getThen ?_
  rw [entityId_of_entity? hx]
  cases recursive with
  | false =>
    refine ((Underway.start s).deleteLabel hthere rfl).andThen fun _ t ht => ?_
    exact (ht.2.refresh rfl).andThen fun _ _ => id
  | true =>
    refine ((Underway.start s).deleteLabel hthere rfl).andThen fun _ t ht => ?_
    obtain ⟨hlabels, ht⟩ := ht
    refine (ht.listLabels rfl).andThen fun records u hu => Call.Ends.getThen ?_
    obtain ⟨⟨rfl, hkept⟩, hu⟩ := hu
    have hname : u.entityName e = x.name := by
      rw [hu.same]
      exact entityName_of_entity? hx
    rw [hname, hlabels]
    obtain ⟨hids, hlisted⟩ := (hstore.remove x.id).below x.name
    refine (hu.deleteLabels hids (fun r hr => ?_) rfl).andThen fun _ v hv =>
      (hv.refresh rfl).andThen fun _ _ => id
    rw [hkept, hlabels]
    exact hlisted r hr

theorem filterMap_deleted?_of_last {labels : Table String LabelRecord} {id name : String}
    {recursive : Bool} {before : List Request} {r : Request}
    (h : deletion labels id name recursive = before ++ [r]) :
    before.filterMap Unsteady.deleted? =
      (deletion labels id name recursive).filterMap Unsteady.deleted? := by
  have hlast : (deletion labels id name recursive).getLast? = some .listLabels := by
    cases recursive with
    | false => rfl
    | true => rw [deletion, List.getLast?_concat]
  rw [h, List.getLast?_concat] at hlast
  rw [h, List.filterMap_append, Option.some.inj hlast]
  exact (List.append_nil _).symm

/-- Deleting a label, with a failure possible at every request. Without one the label is gone, on
demand with those of the user below its name, and the tree is that of the remaining labels on the
nodes that these had, so what was below a deleted label hangs from the nearest label above it that
remains. The first failure is the one that the deletion ends with: the labels that the requests
before it delete are gone, which are all of them if only the refresh fails, and registry, tree and
count of refreshes are as they were. -/
theorem deleteLabel_outcomes (hstore : s.outside.store.Neat) {past : List (List LabelRecord)}
    (hrefreshed : s.directory.bare =
      (past ++ [s.outside.store.labels.values]).foldl reconciled .initial)
    (hnames : ((userLabels s.outside.store.labels.values).map (·.name)).Nodup)
    (hnonempty : ∀ l ∈ userLabels s.outside.store.labels.values, l.name ≠ "")
    (hx : s.entity? e = some x) (hthere : s.outside.store.labels.has x.id = true)
    (recursive : Bool) :
    let labels := s.outside.store.labels
    let requests := deletion labels x.id x.name recursive
    let rest := remaining labels x.id x.name recursive
    s.directory.Shows (userLabels labels.values) ∧
    Call.Ends (deleteLabel e recursive) s
      (fun _ t => s.outside.Clear requests ∧
        t.outside.store.calls = s.outside.store.calls ++ requests ∧
        t.outside.store.labels = rest ∧
        t.directory.Shows (userLabels rest.values) ∧
        t.directory.IsTreeOf (userLabels rest.values) s.directory.nodeOf ∧
        t.directory.generation = s.directory.generation + 1)
      fun failure t => ∃ before r after, requests = before ++ r :: after ∧
        s.outside.Clear before ∧ s.outside.fault? before.length r = some failure ∧
        t.outside.store.calls = s.outside.store.calls ++ (before ++ [r]) ∧
        t.outside.store.labels = Store.without labels (before.filterMap Unsteady.deleted?) ∧
        (after = [] → t.outside.store.labels = rest) ∧
        t = { s with outside := t.outside } := by
  intro labels requests rest
  have hp := proper_userLabels hstore hnames hnonempty
  obtain ⟨hbased, hshows⟩ := shows_of_bare hrefreshed hp
  have hall := without_deletion hstore x.id x.name recursive
  refine ⟨hshows, (deleteLabel_requests hstore hx hthere recursive).imp (fun _ t ht => ?_)
    fun failure t ht => ?_⟩
  · obtain ⟨hanswered, hsame⟩ := ht
    have hrest : t.outside.store.labels = rest := hanswered.labels.trans hall
    have hdirectory : t.directory = reconciled s.directory rest.values := by
      rw [hsame, hrest]
    obtain ⟨hfewer, htree⟩ := shows_fewer hbased hshows hp
      (remaining_sublist labels x.id x.name recursive)
    rw [hdirectory]
    exact ⟨hanswered.clear, hanswered.calls, hrest, hfewer, htree, rfl⟩
  · obtain ⟨hsame, before, r, after, hrequests, hclear, hfault, hcalls, hlabels⟩ := ht
    refine ⟨before, r, after, hrequests, hclear, hfault, hcalls, hlabels, ?_, hsame⟩
    rintro rfl
    rw [hlabels, filterMap_deleted?_of_last hrequests]
    exact hall

/-- Of four labels `Work` is deleted alone, and `Work/Clients/Old` then hangs from `Work/Clients` as
before. Deleted with what is below, where the fourth request fails, it takes `Work/Clients/Old` with
it, which is listed first; `Work/Clients` stays, and the tree still has all four. -/
theorem deleteLabel_outcomes_nested :
    let store : Store := ((((Store.initial.seedLabel "Work" (some "Label_1")).2.seedLabel
      "Workshop" (some "Label_2")).2.seedLabel "Work/Clients/Old" (some "Label_3")).2.seedLabel
      "Work/Clients" (some "Label_4")).2
    let s (schedule : List (Option Failure)) : Session Unsteady :=
      { outside := ⟨store, schedule⟩, directory := reconciled .initial store.labels.values
        entities := #[⟨.user, { id := "Label_1", name := "Work", origin := .user }⟩] }
    let broken := s [none, none, none, some .invalidTime]
    (∃ t, (deleteLabel ⟨0⟩ false).run (s []) = (.ok (), t) ∧
      t.outside.store.labels = store.labels.remove "Label_1" ∧
      (t.directory.node ((s []).directory.nodeOf ⟨"Label_3", "Work/Clients/Old"⟩)).parent =
        some ((s []).directory.nodeOf ⟨"Label_4", "Work/Clients"⟩)) ∧
    ∃ t, (deleteLabel ⟨0⟩ true).run broken = (.error .invalidTime, t) ∧
      t.outside.store.labels.has "Label_3" = false ∧
      t.outside.store.labels.has "Label_4" = true ∧ t.directory = broken.directory := by
  intro store s broken
  have hstore : store.Neat := (((Store.initial_neat.seedLabel _ _).seedLabel _ _).seedLabel _
    _).seedLabel _ _
  have hrefreshed : (reconciled .initial store.labels.values).bare =
      ([] ++ [store.labels.values]).foldl reconciled .initial := by
    rw [bare_reconciled, Directory.bare_initial]
    rfl
  have hnames : ((userLabels store.labels.values).map (·.name)).Nodup := by decide +kernel
  have hnonempty : ∀ l ∈ userLabels store.labels.values, l.name ≠ "" := by decide +kernel
  have hthere : store.labels.has "Label_1" = true := by decide +kernel
  have hmem : (⟨"Label_3", "Work/Clients/Old"⟩ : Label.Tag) ∈
      userLabels (store.labels.remove "Label_1").values := by decide +kernel
  have hhangs : Label.Hangs (userLabels (store.labels.remove "Label_1").values)
      (some ⟨"Label_4", "Work/Clients"⟩) ⟨"Label_3", "Work/Clients/Old"⟩ := by decide +kernel
  have honly : ∀ i r failure, broken.outside.fault? i r = some failure →
      failure = .invalidTime := by
    intro i r failure hfault
    rcases i with _ | _ | _ | _ | i <;> cases hfault
    rfl
  obtain ⟨_, t, hrun⟩ := Call.exists_ok (x := deleteLabel ⟨0⟩ false) (s := s []) (by decide +kernel)
  refine ⟨⟨t, hrun, ?_⟩, ?_⟩
  · obtain ⟨-, -, hlabels, -, htree, -⟩ := (deleteLabel_outcomes (s := s []) (e := ⟨0⟩) hstore
      hrefreshed hnames hnonempty rfl hthere false).2.ok hrun
    exact ⟨hlabels, htree.parent _ hmem _ hhangs⟩
  · obtain ⟨failure, t, hrun⟩ :=
      Call.exists_error (x := deleteLabel ⟨0⟩ true) (s := broken) (by decide +kernel)
    have hends := (deleteLabel_outcomes (s := broken) (e := ⟨0⟩) hstore hrefreshed hnames hnonempty
      rfl hthere true).2
    rw [Call.Ends, hrun] at hends
    obtain ⟨before, r, after, -, -, hfault, -, -, -, hsame⟩ := hends
    have hkept : ["Label_3", "Label_4"].map
        ((deleteLabel ⟨0⟩ true).run broken).2.outside.store.labels.has = [false, true] := by
      decide +kernel
    rw [hrun] at hkept
    obtain ⟨hgone, hstays⟩ := List.cons.inj hkept
    have hdirectory := congrArg Session.directory hsame
    exact ⟨t, honly _ _ _ hfault ▸ hrun, hgone, List.singleton_inj.mp hstays, hdirectory⟩

end Mailroom.Session
