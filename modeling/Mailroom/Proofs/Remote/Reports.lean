import Mailroom.Proofs.Remote.Taped
import Mathlib.Tactic.NormNum

/-! What the calls of a client report. A logged wire keeps every request with what came back, and
every pause. A call makes its requests one after another; each is made again while the quota is
short, five times at most, and the first that fails in the end is what the call reports: as a matter
of authorization or as a failure of the service, but a fault that is no error goes through. Of a
fault that cannot be asked for a reason of quota, what is raised instead is reported. A shortage of
quota is told by its status and authorization also by the text, so a shortage that lasts is reported
as a matter of authorization if its text speaks of it. -/

namespace Mailroom.Remote

/-- What a client does to the outside. -/
inductive Event
  | sent (r : Request) (answer : Except Fault Value)
  | waited (delay : Rat)

/-- A wire with the events on it so far. -/
structure Logged (ω : Type) where
  wire : ω
  events : List Event := []

namespace Logged

variable {ω : Type}

instance [Wire ω] : Wire (Logged ω) where
  send r l :=
    let (answer, wire) := (Wire.send r : StateM ω (Except Fault Value)) l.wire
    (answer, ⟨wire, l.events ++ [.sent r answer]⟩)

instance [Clock ω] : Clock (Logged ω) where
  now l :=
    let (ms, wire) := (Clock.now : StateM ω Rat) l.wire
    (ms, { l with wire })
  sleep delay l :=
    let (_, wire) := (Clock.sleep delay : StateM ω Unit) l.wire
    ((), ⟨wire, l.events ++ [.waited delay]⟩)

end Logged

/-! ### The events of one request -/

/-- The pauses between the times a request is made, in milliseconds. -/
def pauses : List Rat := [2000, 4000, 8000, 16000]

namespace Tries

/-- The events of a request: a pause behind each fault after which it was made again. -/
def events (t : Tries) : List Event :=
  (t.retried.zip pauses).flatMap
    (fun tried => [.sent t.request (.error tried.1), .waited tried.2]) ++ [.sent t.request t.last]

/-- The fault that a request met in the end. -/
def fault? (t : Tries) : Option Fault :=
  match t.last with
  | .error fault => some fault
  | .ok _ => none

theorem isDelivered_eq (t : Tries) : t.isDelivered = t.fault?.isNone := by
  rw [isDelivered, fault?]
  cases t.last <;> rfl

end Tries

/-- Delays that are doubled each time. -/
def doubled : Nat → Rat → List Rat
  | 0, _ => []
  | n + 1, delay => delay :: doubled n (2 * delay)

theorem doubled_pauses : doubled 4 Client.firstPause = pauses := by
  norm_num [doubled, pauses, Client.firstPause]

theorem record_zip {ε : Type} (noted : Except Fault Value → List ε) (paused : Rat → List ε)
    {faults : List Fault} {n : Nat} (h : faults.length ≤ n) (last : Except Fault Value)
    (delay : Rat) : attemptsRecord noted paused delay faults last =
      (faults.zip (doubled n delay)).flatMap
        (fun tried => noted (.error tried.1) ++ paused tried.2) ++ noted last := by
  induction faults generalizing n delay with
  | nil => rfl
  | cons fault faults ih =>
    obtain ⟨n, rfl⟩ : ∃ m, n = m + 1 := ⟨n - 1, by simp at h; omega⟩
    rw [attemptsRecord, ih (Nat.le_of_succ_le_succ h), doubled, List.zip_cons_cons,
      List.flatMap_cons]
    simp only [List.append_assoc]

/-! ### What is reported -/

/-- How a client for an account reports a fault: an error as one of authorization or of the service,
anything else as it is; but of a fault that is misread, what is raised instead, as a failure of the
service. -/
inductive Reported (email : String) : Fault → Failure → Prop
  | authorization {name message : String} {details : List (String × Value)}
      (h : (Fault.error name message details).isAuthorization = .ok true) :
      Reported email (.error name message details)
        (.auth email (Fault.error name message details).text)
  | service {name message : String} {details : List (String × Value)}
      (h : (Fault.error name message details).isAuthorization = .ok false) :
      Reported email (.error name message details) (.api (Fault.error name message details).text)
  | raised {v : Value} (h : ∀ raised, ¬(Fault.bare v).Misread raised) :
      Reported email (.bare v) (.escaped (.bare v))
  | misread {fault raised : Fault} (h : fault.Misread raised) :
      Reported email fault (.api raised.text)

theorem failureOf_misread {fault raised : Fault} (h : fault.Misread raised) (email : String) :
    Client.failureOf email raised = .api raised.text := by
  cases h <;> rfl

theorem reported_failureOf (email : String) (fault : Fault) :
    Reported email fault (Client.failureOf email fault.surfaced) := by
  cases hasked : fault.isRateLimit with
  | error raised =>
    have hmisread := Fault.isRateLimit_eq_error_iff.mp hasked
    rw [Fault.surfaced_of_misread hmisread, failureOf_misread hmisread]
    exact .misread hmisread
  | ok isShort =>
    rw [Fault.surfaced_of_ok hasked]
    cases fault with
    | bare v => exact .raised fun _ => Fault.not_misread_of_ok hasked
    | error name message details =>
      obtain ⟨isRefusal, hjudged⟩ := Fault.isAuthorization_of_ok hasked
      rw [Client.failureOf, hjudged]
      · cases isRefusal with
        | true => exact .authorization hjudged
        | false => exact .service hjudged
      · nofun

/-! ### Requests in a row -/

namespace Client

variable {ω α β τ : Type}

/-- What the requests that are planned leave of a client: their events, and the fault that the last
one met, if they were not all delivered. -/
def Carried (c : Client (Logged ω)) (plan : List Request) (met : Option Fault)
    (d : Client (Logged ω)) : Prop :=
  ∃ tries, Follows plan tries ∧ tries.findSome? Tries.fault? = met ∧
    d.wire.events = c.wire.events ++ tries.flatMap Tries.events

theorem all_isDelivered {tries : List Tries} :
    tries.all Tries.isDelivered = (tries.findSome? Tries.fault?).isNone := by
  induction tries with
  | nil => rfl
  | cons t tries ih =>
    rw [List.all_cons, List.findSome?_cons, Tries.isDelivered_eq, ih]
    cases t.fault? <;> rfl

namespace Carried

variable {c d e : Client (Logged ω)} {plan more : List Request} {met : Option Fault}
  {fault : Fault}

theorem nothing : Carried c [] none c := ⟨[], .done, rfl, (List.append_nil _).symm⟩

theorem once {t : Tries} {r : Request} (h : t.Lawful r maxAttempts)
    (hevents : d.wire.events = c.wire.events ++ t.events) : Carried c [r] t.fault? d := by
  refine ⟨[t], ?_, ?_, by simpa using hevents⟩
  · cases hmet : t.fault? with
    | none => exact .next h (by rw [Tries.isDelivered_eq, hmet]; rfl) .done
    | some fault => exact .stopped h (by rw [Tries.isDelivered_eq, hmet]; rfl)
  · cases hmet : t.fault? <;> simp [hmet]

theorem andThen (h : Carried c plan none d) (hmore : Carried d more met e) :
    Carried c (plan ++ more) met e := by
  obtain ⟨tries, hfollows, hnone, hd⟩ := h
  obtain ⟨others, hothers, hmet, he⟩ := hmore
  refine ⟨tries ++ others, hfollows.append ?_ hothers, ?_, ?_⟩
  · rw [all_isDelivered, hnone]
    rfl
  · rw [List.findSome?_append, hnone, Option.none_or, hmet]
  · rw [he, hd, List.flatMap_append, List.append_assoc]

theorem stop (h : Carried c plan (some fault) d) (more : List Request) :
    Carried c (plan ++ more) (some fault) d := by
  obtain ⟨tries, hfollows, hmet, hd⟩ := h
  refine ⟨tries, hfollows.stop ?_ more, hmet, hd⟩
  rw [all_isDelivered, hmet]
  rfl

end Carried

/-- A computation that makes planned requests, and fails with what is reported of the fault that the
last one met. -/
def Tells (x : Call (Client (Logged ω)) α) (c : Client (Logged ω)) (plan : List Request)
    (done : α → Client (Logged ω) → Prop) : Prop :=
  Call.Ends x c (fun a d => Carried c plan none d ∧ done a d)
    fun failure d => ∃ fault, Carried c plan (some fault) d ∧ Reported c.email fault failure

theorem Tells.andThen {x : Call (Client (Logged ω)) α} {f : α → Call (Client (Logged ω)) β}
    {c : Client (Logged ω)} {plan more : List Request} {done : α → Client (Logged ω) → Prop}
    {next : β → Client (Logged ω) → Prop} (h : Tells x c plan done)
    (hf : ∀ a d, done a d → d.email = c.email ∧ Tells (f a) d more next) :
    Tells (x >>= f) c (plan ++ more) next := by
  refine (Call.Ends.impFailed h ?_).andThen fun a d hd => ?_
  · rintro failure d ⟨fault, hcarried, hreported⟩
    exact ⟨fault, hcarried.stop more, hreported⟩
  · obtain ⟨hcarried, hdone⟩ := hd
    obtain ⟨hemail, hmore⟩ := hf a d hdone
    refine Call.Ends.imp hmore (fun b e hend => ⟨hcarried.andThen hend.1, hend.2⟩) ?_
    rintro failure e ⟨fault, hrest, hreported⟩
    exact ⟨fault, hcarried.andThen hrest, hemail ▸ hreported⟩

section Calls

variable [Wire ω] [Clock ω] (c : Client (Logged ω))

/-- One request, with the pauses between its attempts. -/
theorem request_tried (r : Request) : ∃ t : Tries, t.Lawful r maxAttempts ∧
    ((request r).run c).1 = t.last.mapError (fun fault => failureOf c.email fault.surfaced) ∧
    ((request r).run c).2.email = c.email ∧
    ((request r).run c).2.wire.events = c.wire.events ++ t.events := by
  obtain ⟨faults, last, hattempted, hend, hevents⟩ := retry_attempted
    (fun delay => onWire (Clock.sleep delay)) (onWire (Wire.send r))
    (fun c : Client (Logged ω) => c.wire.events) (fun answer => [.sent r answer])
    (fun delay => [.waited delay]) (fun _ => rfl) (fun _ _ => rfl) 4 firstPause c
  have hemail := retry_keeps (fun delay => onWire (Clock.sleep delay)) (onWire (Wire.send r))
    (fun c : Client (Logged ω) => c.email) (fun _ => rfl) (fun _ _ => rfl) maxAttempts firstPause c
  have hrecord := record_zip (fun answer => [Event.sent r answer]) (fun delay => [.waited delay])
    (Nat.le_of_lt_succ hattempted.length)
  refine ⟨_, .of_attempted hattempted, ?_⟩
  rw [hrecord, doubled_pauses] at hevents
  rw [request, Call.run_bind, Call.run_liftM]
  simp only [maxAttempts] at hemail ⊢
  rcases hrun : retry (fun delay => onWire (Clock.sleep delay)) (onWire (Wire.send r)) (4 + 1)
    firstPause c with ⟨left, d⟩
  rw [hrun] at hend hemail hevents
  obtain rfl : left = last.mapError Fault.surfaced := hend
  cases last with
  | error fault =>
    exact ⟨congrArg (fun email => Except.error (failureOf email fault.surfaced)) hemail, hemail,
      hevents⟩
  | ok v => exact ⟨rfl, hemail, hevents⟩

theorem request_tells (r : Request) :
    Tells (request r) c [r] fun _ d => d.email = c.email := by
  obtain ⟨t, hlawful, hanswer, hemail, hevents⟩ := request_tried c r
  have hcarried := Carried.once hlawful hevents
  rw [Tells, Call.Ends]
  rcases hrun : (request r).run c with ⟨failure | v, d⟩ <;>
    rw [hrun] at hanswer hemail hcarried <;> cases hlast : t.last <;>
    simp only [hlast, mapError_error, mapError_ok, reduceCtorEq, Except.error.injEq] at hanswer <;>
    simp only [Tries.fault?, hlast] at hcarried
  · exact ⟨_, hcarried, hanswer ▸ reported_failureOf c.email _⟩
  · exact ⟨hcarried, hemail⟩

variable {c}

/-- A request whose answer is only read. -/
theorem Tells.read {r : Request} {g : Value → Call (Client (Logged ω)) α}
    (hg : ∀ v d, ∃ a e, (g v).run d = (.ok a, e) ∧ e.wire = d.wire) :
    Tells (request r >>= g) c [r] fun _ _ => True := by
  refine Tells.andThen (request_tells c r) fun v d hemail => ⟨hemail, ?_⟩
  obtain ⟨a, e, hrun, hwire⟩ := hg v d
  refine Call.Ends.of_run hrun ⟨⟨[], .done, rfl, ?_⟩, trivial⟩
  rw [hwire]
  exact (List.append_nil _).symm

theorem perform_tells (r : Request) (c : Client (Logged ω)) :
    Tells (perform r) c [r] fun _ d => d.email = c.email :=
  Tells.andThen (request_tells c r) fun _ _ hemail => ⟨hemail, .nothing, hemail⟩

theorem pieces_tells (make : List String → Request) (pieces : List (List String)) :
    ∀ c : Client (Logged ω), Tells (pieces.forM fun piece => perform (make piece)) c
      (pieces.map make) fun _ d => d.email = c.email := by
  induction pieces with
  | nil => exact fun c => ⟨.nothing, rfl⟩
  | cons piece rest ih =>
    intro c
    rw [List.forM, List.map_cons]
    refine (perform_tells (make piece) c).andThen fun _ d hemail => ⟨hemail, ?_⟩
    exact Call.Ends.impDone (ih d) fun _ e hend => ⟨hend.1, hend.2.trans hemail⟩

/-! ### Messages one after another -/

/-- What a visitor is handed of a request that was made: the answer, or what is reported of a fault
unless that is raised. -/
inductive Handed (email : String) : Except Fault Value → Except Failure Value → Prop
  | answer (v : Value) : Handed email (.ok v) (.ok v)
  | failure {fault : Fault} {failure : Failure} (h : Reported email fault failure)
      (hkept : ∀ raised, failure ≠ .escaped raised) : Handed email (.error fault) (.error failure)

/-- Messages are fetched one after another and handed to a visitor, until it ends the call or a
fault is met that is raised as it is. -/
inductive Visited (visit : String → Except Failure Value → τ → τ × Option Failure)
    (email : String) : List String → List Tries → τ → τ × Option Failure → Prop
  | done {t} : Visited visit email [] [] t (t, none)
  | raised {id rest tries t fault raised} : tries.Lawful (.getMessage id) maxAttempts →
      tries.last = .error fault → Reported email fault (.escaped raised) →
      Visited visit email (id :: rest) [tries] t (t, some (.escaped raised))
  | next {id rest tries more t u answer out} : tries.Lawful (.getMessage id) maxAttempts →
      Handed email tries.last answer → visit id answer t = (u, none) →
      Visited visit email rest more u out → Visited visit email (id :: rest) (tries :: more) t out
  | ended {id rest tries t u answer failure} : tries.Lawful (.getMessage id) maxAttempts →
      Handed email tries.last answer → visit id answer t = (u, some failure) →
      Visited visit email (id :: rest) [tries] t (u, some failure)

/-- What a visitor makes of an answer, and what it leaves for the messages that follow. -/
theorem visitMessages_cons (visit : String → Except Failure Value → τ → τ × Option Failure)
    {id : String} {rest : List String} {t : τ} {answer : Except Failure Value}
    {d : Client (Logged ω)} (hrun : (request (.getMessage id)).run c = (answer, d))
    (hanswer : ∀ fault, answer ≠ .error (.escaped fault)) :
    visitMessages visit (id :: rest) t c =
      match visit id answer t with
      | (u, none) => visitMessages visit rest u d
      | (u, some failure) => ((u, some failure), d) := by
  simp only [visitMessages, fetchMessage, bind, StateT.bind, ExceptT.run] at hrun ⊢
  rw [hrun]
  dsimp only
  split
  · exact absurd rfl (hanswer _)
  · rcases visit id answer t with ⟨u, _ | failure⟩ <;> rfl

theorem visitMessages_raised (visit : String → Except Failure Value → τ → τ × Option Failure)
    {id : String} {rest : List String} {t : τ} {fault : Fault} {d : Client (Logged ω)}
    (hrun : (request (.getMessage id)).run c = (.error (.escaped fault), d)) :
    visitMessages visit (id :: rest) t c = ((t, some (.escaped fault)), d) := by
  simp only [visitMessages, fetchMessage, bind, StateT.bind, ExceptT.run] at hrun ⊢
  rw [hrun]
  rfl

theorem visitMessages_visited (visit : String → Except Failure Value → τ → τ × Option Failure)
    (ids : List String) : ∀ (c : Client (Logged ω)) (t : τ),
    ∃ tries, Visited visit c.email ids tries t (visitMessages visit ids t c).1 ∧
      (visitMessages visit ids t c).2.wire.events = c.wire.events ++ tries.flatMap Tries.events := by
  induction ids with
  | nil => exact fun c t => ⟨[], .done, (List.append_nil _).symm⟩
  | cons id rest ih =>
    intro c t
    obtain ⟨tries, hlawful, hanswer, hemail, hevents⟩ := request_tried c (.getMessage id)
    rcases hrun : (request (.getMessage id)).run c with ⟨answer, d⟩
    rw [hrun] at hanswer hemail hevents
    -- An answer that is handed over is the visitor's to judge.
    have hvisit : Handed c.email tries.last answer → (∀ fault, answer ≠ .error (.escaped fault)) →
        ∃ tries, Visited visit c.email (id :: rest) tries t
            (visitMessages visit (id :: rest) t c).1 ∧
          (visitMessages visit (id :: rest) t c).2.wire.events =
            c.wire.events ++ tries.flatMap Tries.events := by
      intro hhanded hkept
      rw [visitMessages_cons visit hrun hkept]
      rcases hjudged : visit id answer t with ⟨u, _ | failure⟩
      · obtain ⟨more, hvisited, hmore⟩ := ih d u
        refine ⟨tries :: more, .next hlawful hhanded hjudged (hemail ▸ hvisited), ?_⟩
        rw [hmore, hevents, List.flatMap_cons, List.append_assoc]
      · exact ⟨[tries], .ended hlawful hhanded hjudged, by simpa using hevents⟩
    cases hlast : tries.last with
    | ok v =>
      obtain rfl : answer = .ok v := hanswer.trans (by rw [hlast]; rfl)
      exact hvisit (hlast ▸ .answer v) nofun
    | error fault =>
      obtain rfl : answer = .error (failureOf c.email fault.surfaced) :=
        hanswer.trans (by rw [hlast]; rfl)
      have hreported := reported_failureOf c.email fault
      generalize failureOf c.email fault.surfaced = failure at hrun hreported hvisit
      have hends : (∃ raised, failure = .escaped raised) ∨ ∀ raised, failure ≠ .escaped raised := by
        cases failure <;> simp
      rcases hends with ⟨raised, rfl⟩ | hkept
      · rw [visitMessages_raised visit hrun]
        exact ⟨[tries], .raised hlawful hlast hreported, by simpa using hevents⟩
      · refine hvisit (hlast ▸ .failure hreported hkept) fun raised heq => ?_
        exact hkept raised (Except.error.inj heq)

/-- A visitor that ends the call at the first failure sees all requests delivered or reports the
fault of the last. -/
theorem Visited.follows {visit : String → Except Failure Value → τ → τ × Option Failure}
    (hok : ∀ id v t, (visit id (.ok v) t).2 = none)
    (herror : ∀ id failure t, (visit id (.error failure) t).2 = some failure) {email : String}
    {ids : List String} {tries : List Tries} {t : τ} {out : τ × Option Failure}
    (h : Visited visit email ids tries t out) :
    Follows (ids.map .getMessage) tries ∧
      match out.2 with
      | none => tries.findSome? Tries.fault? = none
      | some failure => ∃ fault, tries.findSome? Tries.fault? = some fault ∧
          Reported email fault failure := by
  induction h with
  | done => exact ⟨.done, rfl⟩
  | @raised id rest tries t fault raised hlawful hlast hreported =>
    have hmet : tries.fault? = some fault := by rw [Tries.fault?, hlast]
    refine ⟨.stopped hlawful (by rw [Tries.isDelivered_eq, hmet]; rfl), _, ?_, hreported⟩
    rw [List.findSome?_cons, hmet]
  | @next id rest tries more t u answer out hlawful hhanded hjudged _ ih =>
    generalize hlast : tries.last = last at hhanded
    cases hhanded with
    | answer v =>
      have hmet : tries.fault? = none := by rw [Tries.fault?, hlast]
      refine ⟨.next hlawful (by rw [Tries.isDelivered_eq, hmet]; rfl) ih.1, ?_⟩
      rw [List.findSome?_cons, hmet]
      exact ih.2
    | @failure fault other _ _ =>
      have hended := herror id other t
      rw [hjudged] at hended
      cases hended
  | @ended id rest tries t u answer failure hlawful hhanded hjudged =>
    generalize hlast : tries.last = last at hhanded
    cases hhanded with
    | answer v =>
      have hgone := hok id v t
      rw [hjudged] at hgone
      cases hgone
    | @failure fault other hreported _ =>
      obtain rfl : failure = other := by
        have hended := herror id other t
        rw [hjudged] at hended
        exact Option.some.inj hended
      have hmet : tries.fault? = some fault := by rw [Tries.fault?, hlast]
      refine ⟨.stopped hlawful (by rw [Tries.isDelivered_eq, hmet]; rfl), _, ?_, hreported⟩
      rw [List.findSome?_cons, hmet]

theorem getMessages_tells (ids : List String) (c : Client (Logged ω)) :
    Tells (getMessages ids) c (ids.map .getMessage) fun _ _ => True := by
  rw [Tells, Call.Ends, getMessages, Call.run_bind, Call.run_liftM]
  dsimp only
  generalize hvisit : (fun (_ : String) (answer : Except Failure Value)
    (done : List Message.Resource) => _) = visit
  obtain ⟨tries, hvisited, hevents⟩ := visitMessages_visited visit ids c []
  have hfollows := hvisited.follows (by subst hvisit; exact fun _ _ _ => rfl)
    (by subst hvisit; exact fun _ _ _ => rfl)
  rcases hrun : visitMessages visit ids [] c with ⟨⟨done, _ | failure⟩, d⟩ <;>
    rw [hrun] at hfollows hevents
  · exact ⟨⟨tries, hfollows.1, hfollows.2, hevents⟩, trivial⟩
  · obtain ⟨hplan, fault, hmet, hreported⟩ := hfollows
    exact ⟨fault, ⟨tries, hplan, hmet, hevents⟩, hreported⟩

/-- A label that is made without an id in the answer is a failure of the service. -/
theorem createLabel_ends (body : LabelBody) (c : Client (Logged ω)) :
    Call.Ends (createLabel body) c (fun _ d => Carried c [.createLabel body] none d)
      fun failure d => (∃ fault, Carried c [.createLabel body] (some fault) d ∧
          Reported c.email fault failure) ∨
        Carried c [.createLabel body] none d ∧ failure =
          .api ("labels.create returned no id for \"" ++ body.name.getD "" ++ "\"") := by
  refine (Call.Ends.impFailed (request_tells c (.createLabel body)) fun _ _ h => .inl h).andThen
    fun v d hd => ?_
  cases LabelBody.chosen (v.textAt? "id") with
  | none => exact .inr ⟨hd.1, rfl⟩
  | some id => exact hd.1

/-! ### All calls -/

end Calls

/-- The requests that a call makes if none fails. -/
def plan : Request → List Request
  | .listMessages q => [.listMessages (trimmed q)]
  | .getMessages ids => ids.map .getMessage
  | .deleteMessages ids => (Runs.chunks maxIds ids).map .deleteMessages
  | .modifyMessages ids change => (Runs.chunks maxIds ids).map (.modifyMessages · change)
  | r => [r]

/-- How a call ends, by the fault that its requests met. A label may be made and have no id. -/
def Concludes (email : String) (r : Request) : Option Fault → Except Failure Unit → Prop
  | some fault, outcome => ∃ failure, outcome = .error failure ∧ Reported email fault failure
  | none, outcome => outcome = .ok () ∨ ∃ body, r = .createLabel body ∧ outcome = .error
      (.api ("labels.create returned no id for \"" ++ body.name.getD "" ++ "\""))

end Client

/-- A request as a call of a service, its answer left out. -/
def Request.call {σ : Type} [MailService σ] : Request → Call σ Unit
  | .profile => do let _ ← MailService.profile
  | .listLabels => do let _ ← MailService.listLabels
  | .getLabel id => do let _ ← MailService.getLabel id
  | .createLabel body => do let _ ← MailService.createLabel body
  | .updateLabel id body => MailService.updateLabel id body
  | .deleteLabel id => MailService.deleteLabel id
  | .listMessages q => do let _ ← MailService.listMessages q
  | .getMessage id => do let _ ← MailService.getMessage id
  | .getMessages ids => do let _ ← MailService.getMessages ids
  | .modifyMessage id change => MailService.modifyMessage id change
  | .trashMessage id => MailService.trashMessage id
  | .untrashMessage id => MailService.untrashMessage id
  | .deleteMessage id => MailService.deleteMessage id
  | .deleteMessages ids => MailService.deleteMessages ids
  | .modifyMessages ids change => MailService.modifyMessages ids change

namespace Client

variable {ω : Type} [Wire ω] [Clock ω]

omit [Wire ω] [Clock ω] in
theorem Tells.discard {α : Type} {x : Call (Client (Logged ω)) α} {c : Client (Logged ω)}
    {plan : List Request} {done : α → Client (Logged ω) → Prop} (h : Tells x c plan done) :
    Tells (do let _ ← x) c plan fun _ _ => True :=
  Call.Ends.andThen h fun _ _ hend => ⟨hend.1, trivial⟩

omit [Wire ω] [Clock ω] in
theorem Tells.concludes {x : Call (Client (Logged ω)) Unit} {c : Client (Logged ω)} {r : Request}
    {done : Unit → Client (Logged ω) → Prop} (h : Tells x c (plan r) done) :
    ∃ met, Carried c (plan r) met (x.run c).2 ∧ Concludes c.email r met (x.run c).1 := by
  rw [Tells, Call.Ends] at h
  rcases hrun : x.run c with ⟨failure | _, d⟩ <;> rw [hrun] at h
  · obtain ⟨fault, hcarried, hreported⟩ := h
    exact ⟨some fault, hcarried, failure, rfl, hreported⟩
  · exact ⟨none, h.1, .inl rfl⟩

theorem call_concludes (r : Request) (c : Client (Logged ω)) :
    ∃ met, Carried c (plan r) met (r.call.run c).2 ∧ Concludes c.email r met (r.call.run c).1 := by
  cases r with
  | profile =>
    refine (Tells.read (r := .profile) (g := fun answer => do
      let email := (answer.textAt? "emailAddress").getD (← get).email
      modify fun c => { c with email }
      return email) fun _ _ => ⟨_, _, rfl, rfl⟩).discard.concludes
  | listLabels => exact (Tells.read fun _ _ => ⟨_, _, rfl, rfl⟩).discard.concludes
  | getLabel id => exact (Tells.read fun _ _ => ⟨_, _, rfl, rfl⟩).discard.concludes
  | createLabel body =>
    have hends := createLabel_ends body c
    have hcall : (Request.call (.createLabel body)).run c =
        (((createLabel body).run c).1.map fun _ => (), ((createLabel body).run c).2) := by
      change (createLabel body >>= fun _ => pure ()).run c = _
      rw [Call.run_bind]
      rcases (createLabel body).run c with ⟨failure | id, d⟩ <;> rfl
    rw [hcall]
    rw [Call.Ends] at hends
    rcases hrun : (createLabel body).run c with ⟨failure | id, d⟩ <;> rw [hrun] at hends
    · rcases hends with ⟨fault, hcarried, hreported⟩ | ⟨hcarried, rfl⟩
      · exact ⟨some fault, hcarried, failure, rfl, hreported⟩
      · exact ⟨none, hcarried, .inr ⟨body, rfl, rfl⟩⟩
    · exact ⟨none, hends, .inl rfl⟩
  | updateLabel id body => exact (perform_tells _ c).concludes
  | deleteLabel id => exact (perform_tells _ c).concludes
  | listMessages q => exact (Tells.read fun _ _ => ⟨_, _, rfl, rfl⟩).discard.concludes
  | getMessage id => exact (Tells.read fun _ _ => ⟨_, _, rfl, rfl⟩).discard.concludes
  | getMessages ids => exact (getMessages_tells ids c).discard.concludes
  | modifyMessage id change => exact (perform_tells _ c).concludes
  | trashMessage id => exact (perform_tells _ c).concludes
  | untrashMessage id => exact (perform_tells _ c).concludes
  | deleteMessage id => exact (perform_tells _ c).concludes
  | deleteMessages ids => exact (pieces_tells _ _ c).concludes
  | modifyMessages ids change => exact (pieces_tells _ _ c).concludes

/-- Every call makes its requests in order, each again after a pause while the quota is short and at
most five times, and none behind one that fails in the end; it reports what that one met. A visitor
of messages is handed what is reported of each. A shortage of quota that lasts is reported as a
matter of authorization exactly if its text speaks of it. -/
theorem calls_report (c : Client (Logged ω)) :
    (∀ r : Request, ∃ met,
      Carried c (plan r) met (r.call.run c).2 ∧ Concludes c.email r met (r.call.run c).1) ∧
    (∀ (τ : Type) (visit : String → Except Failure Value → τ → τ × Option Failure)
      (ids : List String) (t : τ), ∃ tries,
      Visited visit c.email ids tries t (visitMessages visit ids t c).1 ∧
        (visitMessages visit ids t c).2.wire.events =
          c.wire.events ++ tries.flatMap Tries.events) ∧
    ∀ fault : Fault, fault.isRateLimit = .ok true →
      fault.isAuthorization = .ok (Fault.authorizationTexts.any (Text.contains fault.text)) :=
  ⟨fun r => call_concludes r c, fun _ visit ids t => visitMessages_visited visit ids c t,
    fun _ => Fault.isAuthorization_of_isRateLimit⟩

example : (Fault.error "Error" "Unauthorized" [("code", .ofNat 429)]).isRateLimit = .ok true ∧
    (Fault.error "Error" "Unauthorized" [("code", .ofNat 429)]).isAuthorization = .ok true :=
  ⟨rfl, rfl⟩

end Client

end Mailroom.Remote
