import Mailroom.Proofs.Data.Runs
import Mailroom.Proofs.Remote.Reports

/-! Long lists of ids on a wire. A change or a deletion of many messages is sent in pieces of a
thousand ids, one after another: a piece is only sent when the one before it was answered, and
nothing is sent behind one that fails in the end. So the answered requests are those for the first
pieces, each once, and the call reports the fault that the next one met. -/

namespace Mailroom.Remote

/-- The request that an event answers. -/
def Event.delivered? : Event → Option Request
  | .sent r (.ok _) => some r
  | _ => none

theorem Tries.delivered_events (t : Tries) :
    t.events.filterMap Event.delivered? = if t.isDelivered then [t.request] else [] := by
  have hretried : ((t.retried.zip pauses).flatMap fun tried => [Event.sent t.request
      (.error tried.1), .waited tried.2]).filterMap Event.delivered? = [] := by
    rw [List.filterMap_eq_nil_iff]
    simp only [List.mem_flatMap, List.mem_cons, List.not_mem_nil, or_false]
    rintro event ⟨tried, -, rfl | rfl⟩ <;> rfl
  rw [events, List.filterMap_append, hretried, isDelivered]
  cases t.last <;> rfl

/-- The answered events are those of the requests that were delivered, one for each. -/
theorem Tries.delivered_flatMap (tries : List Tries) :
    (tries.flatMap Tries.events).filterMap Event.delivered? =
      (tries.filter Tries.isDelivered).map Tries.request := by
  induction tries with
  | nil => rfl
  | cons t tries ih =>
    rw [List.flatMap_cons, List.filterMap_append, t.delivered_events, ih, List.filter_cons]
    split <;> rfl

namespace Client

variable {ω : Type}

/-- Requests that were made in order are the first of the plan. All were delivered, or all but the
last. -/
theorem Follows.parts {plan : List Request} {tries : List Tries} (h : Follows plan tries) :
    tries.map Tries.request = plan.take tries.length ∧
    (∀ t ∈ tries, t.Lawful t.request maxAttempts) ∧
    ∃ done stopped, tries = done ++ Option.toList stopped ∧ (∀ t ∈ done, t.isDelivered = true) ∧
      (stopped = none → done.length = plan.length) ∧ ∀ t ∈ stopped, t.isDelivered = false := by
  induction h with
  | done => exact ⟨rfl, by simp, [], none, rfl, by simp, fun _ => rfl, by simp⟩
  | @next r plan tries more hlawful hdelivered _ ih =>
    obtain ⟨hrequests, hall, done, stopped, rfl, hdone, hnone, hstopped⟩ := ih
    have hrequest := hlawful.request
    subst hrequest
    refine ⟨?_, List.forall_mem_cons.mpr ⟨hlawful, hall⟩, tries :: done, stopped, rfl,
      List.forall_mem_cons.mpr ⟨hdelivered, hdone⟩, fun h => congrArg Nat.succ (hnone h), hstopped⟩
    rw [List.map_cons, hrequests]
    rfl
  | @stopped r plan tries hlawful hfailed =>
    have hrequest := hlawful.request
    subst hrequest
    exact ⟨rfl, by simpa using hlawful, [], some tries, rfl, by simp, nofun, by simpa using hfailed⟩

/-- How pieces of a list were sent, one request after another, and what the call for them ended in:
the tries of the requests that were delivered, and of the one that stopped the others. -/
structure SentInOrder (make : List String → Request) (pieces : List (List String))
    (c : Client (Logged ω)) (ending : Except Failure Unit × Client (Logged ω))
    (done : List Tries) (stopped : Option Tries) : Prop where
  events : ending.2.wire.events = c.wire.events ++ (done ++ stopped.toList).flatMap Tries.events
  requests : (done ++ stopped.toList).map Tries.request =
    (pieces.take (done.length + stopped.toList.length)).map make
  lawful : ∀ t ∈ done ++ stopped.toList, t.Lawful t.request maxAttempts
  answered : ∀ t ∈ done, ∃ v, t.last = .ok v
  delivered : ((done ++ stopped.toList).flatMap Tries.events).filterMap Event.delivered? =
    (pieces.take done.length).map make
  finished : stopped = none → done.length = pieces.length ∧ ending.1 = .ok ()
  failed : ∀ t ∈ stopped, ∃ fault failure, t.last = .error fault ∧
    ending.1 = .error failure ∧ Reported c.email fault failure

variable {make : List String → Request} {pieces : List (List String)} {c d : Client (Logged ω)}
  {outcome : Except Failure Unit} {met : Option Fault}

theorem Carried.inOrder (h : Carried c (pieces.map make) met d)
    (hnone : met = none → outcome = .ok ())
    (hsome : ∀ fault, met = some fault →
      ∃ failure, outcome = .error failure ∧ Reported c.email fault failure) :
    ∃ done stopped, SentInOrder make pieces c (outcome, d) done stopped := by
  obtain ⟨tries, hfollows, rfl, hevents⟩ := h
  obtain ⟨hrequests, hlawful, done, stopped, rfl, hdone, hall, hstopped⟩ := hfollows.parts
  have hrequested : done.map Tries.request = (pieces.take done.length).map make := by
    have hfirst := congrArg (List.take done.length) hrequests
    rw [List.map_append, List.take_left' (List.length_map _), List.take_take,
      Nat.min_eq_left (by simp)] at hfirst
    rw [hfirst, List.map_take]
  have hmet : (done ++ stopped.toList).findSome? Tries.fault? = stopped.bind Tries.fault? := by
    have hearly : done.findSome? Tries.fault? = none := by
      refine List.findSome?_eq_none_iff.mpr fun t ht => ?_
      simpa [Tries.isDelivered_eq] using hdone t ht
    cases stopped <;> simp [List.findSome?_append, hearly]
  rw [hmet] at hnone hsome
  refine ⟨done, stopped, hevents, ?_, hlawful, fun t ht => ?_, ?_, fun h => ?_, fun t ht => ?_⟩
  · rw [hrequests, List.length_append, List.map_take]
  · have hok := hdone t ht
    rw [Tries.isDelivered] at hok
    cases hlast : t.last with
    | ok v => exact ⟨v, rfl⟩
    | error fault => rw [hlast] at hok; cases hok
  · have hfiltered : (done ++ stopped.toList).filter Tries.isDelivered = done := by
      have hlast : stopped.toList.filter Tries.isDelivered = [] := by simpa using hstopped
      rw [List.filter_append, List.filter_eq_self.mpr hdone, hlast, List.append_nil]
    rw [Tries.delivered_flatMap, hfiltered, hrequested]
  · subst h
    exact ⟨by simpa using hall rfl, hnone rfl⟩
  · obtain rfl : stopped = some t := ht
    have hfailed := hstopped t rfl
    rw [Tries.isDelivered] at hfailed
    cases hlast : t.last with
    | ok v => rw [hlast] at hfailed; cases hfailed
    | error fault =>
      obtain ⟨failure, houtcome, hreported⟩ := hsome fault (by simp [Tries.fault?, hlast])
      exact ⟨fault, failure, rfl, houtcome, hreported⟩

variable [Wire ω] [Clock ω]

theorem inPieces_inOrder (make : List String → Request) (ids : List String)
    (c : Client (Logged ω)) : ∃ done stopped, SentInOrder make (Runs.chunks maxIds ids) c
      ((inPieces ids make).run c) done stopped := by
  have htells := pieces_tells make (Runs.chunks maxIds ids) c
  rw [Tells, Call.Ends] at htells
  rw [inPieces]
  rcases hrun : ((Runs.chunks maxIds ids).forM fun piece => perform (make piece)).run c with
    ⟨failure | _, d⟩ <;> rw [hrun] at htells
  · obtain ⟨fault, hcarried, hreported⟩ := htells
    refine hcarried.inOrder (fun hnone => ?_) fun other hmet => ⟨failure, rfl, ?_⟩
    · cases hnone
    · obtain rfl := Option.some.inj hmet
      exact hreported
  · refine htells.1.inOrder (fun _ => rfl) fun fault hmet => ?_
    cases hmet

/-- A list of ids is sent in pieces: they make up the list, each holds a thousand ids at most and
one at least, and there are no more than it takes. A deletion, and every change, is requested for
the pieces in order, each request made again after a pause while the quota is short and only then
the next one. If all are answered the call is done; else it ends with what is reported of the fault
that one request met in the end: those before it were answered once each, and none was made for a
later piece. What is reported is an error of authorization or of the service, unless the fault is no
error, which is raised as it is. -/
theorem pieces_in_order (c : Client (Logged ω)) (ids : List String) :
    let pieces := Runs.chunks maxIds ids
    pieces.flatten = ids ∧ (∀ piece ∈ pieces, piece ≠ [] ∧ piece.length ≤ 1000) ∧
    pieces.length = (ids.length + 999) / 1000 ∧
    (∃ done stopped, SentInOrder .deleteMessages pieces c
      ((MailService.deleteMessages ids).run c) done stopped) ∧
    ∀ change, ∃ done stopped, SentInOrder (.modifyMessages · change) pieces c
      ((MailService.modifyMessages ids change).run c) done stopped :=
  ⟨Runs.flatten_chunks _ _, fun _ => Runs.mem_chunks (by decide),
    Runs.length_chunks (by decide) ids, inPieces_inOrder _ ids c, fun _ => inPieces_inOrder _ ids c⟩

end Client

end Mailroom.Remote
