import Mailroom.Proofs.Remote.Attempts
import Mailroom.Proofs.Remote.Call
import Mailroom.Remote.Client

/-! What goes over a wire. A taped wire keeps every request with what came back. The client makes a
request again while the quota is short, and sends long lists of ids in pieces; a piece that fails in
the end is the last that is sent. -/

namespace Mailroom.Remote

/-- A request and what came back. -/
abbrev RoundTrip := Request × Except Fault Value

/-- A wire with the exchanges over it so far. -/
structure Taped (ω : Type) where
  wire : ω
  exchanges : List RoundTrip := []

namespace Taped

variable {ω : Type}

instance [Wire ω] : Wire (Taped ω) where
  send r t :=
    let (answer, wire) := (Wire.send r : StateM ω (Except Fault Value)) t.wire
    (answer, ⟨wire, t.exchanges ++ [(r, answer)]⟩)

instance [Clock ω] : Clock (Taped ω) where
  now t :=
    let (ms, wire) := (Clock.now : StateM ω Rat) t.wire
    (ms, { t with wire })
  sleep delay t :=
    let (_, wire) := (Clock.sleep delay : StateM ω Unit) t.wire
    ((), { t with wire })

/-- The exchanges of requests that change what the service keeps. -/
def changes (t : Taped ω) : List RoundTrip := t.exchanges.filter (·.1.method.isMutating)

end Taped

/-! ### One request -/

/-- Whether a request is answered with a shortage of quota. -/
def isShort : Except Fault Value → Bool
  | .ok _ => false
  | .error fault => fault.isRateLimit matches .ok true

/-- What is made of one request: the faults after which it was made again, and what came back in
the end. -/
structure Tries where
  request : Request
  retried : List Fault
  last : Except Fault Value

namespace Tries

def exchanges (t : Tries) : List RoundTrip :=
  t.retried.map (fun fault => (t.request, .error fault)) ++ [(t.request, t.last)]

def isDelivered (t : Tries) : Bool := t.last.isOk

/-- The tries of a request of which `attempts` are allowed: it is made again after a shortage of
quota and after nothing else, as long as attempts are left. -/
structure Lawful (t : Tries) (r : Request) (attempts : Nat) : Prop where
  request : t.request = r
  retried : ∀ fault ∈ t.retried, fault.isRateLimit = .ok true
  length : t.retried.length < attempts
  last : isShort t.last = true → t.retried.length + 1 = attempts

theorem Lawful.of_attempted {r : Request} {faults : List Fault} {last : Except Fault Value}
    {attempts : Nat} (h : Attempted faults last attempts) :
    Lawful ⟨r, faults, last⟩ r attempts := by
  refine ⟨rfl, h.retried, h.length, fun hshort => ?_⟩
  cases last with
  | error fault =>
    refine h.last fault rfl ?_
    rcases hasked : fault.isRateLimit with raised | _ | _ <;> simp [isShort, hasked] at hshort ⊢
  | ok v => cases hshort

theorem record_exchanges (r : Request) (faults : List Fault) (last : Except Fault Value)
    (delay : Rat) : attemptsRecord (fun answer => [(r, answer)]) (fun _ => []) delay faults last =
      exchanges ⟨r, faults, last⟩ := by
  induction faults generalizing delay with
  | nil => rfl
  | cons fault faults ih =>
    rw [attemptsRecord, ih]
    rfl

theorem filter_exchanges (t : Tries) : t.exchanges.filter (·.1.method.isMutating) =
    if t.request.method.isMutating then t.exchanges else [] := by
  have hall : ∀ x ∈ t.exchanges, x.1 = t.request := by
    simp only [exchanges, List.mem_append, List.mem_map, List.mem_singleton]
    rintro x (⟨fault, -, rfl⟩ | rfl) <;> rfl
  split
  case isTrue h => exact List.filter_eq_self.mpr fun x hx => by rw [hall x hx, h]
  case isFalse h => exact List.filter_eq_nil_iff.mpr fun x hx => by rw [hall x hx]; exact h

end Tries

namespace Client

variable {ω : Type} [Wire ω] [Clock ω]

/-- What making a request at most so often ends in: its tries are on the tape, and it leaves what
came back in the end, or what is raised instead of a fault that is misread. -/
def Made (c : Client (Taped ω)) (r : Request) (attempts : Nat)
    (ending : Except Fault Value × Client (Taped ω)) : Prop :=
  ∃ tries : Tries, tries.Lawful r attempts ∧ ending.1 = tries.last.mapError Fault.surfaced ∧
    ending.2.wire.exchanges = c.wire.exchanges ++ tries.exchanges

/-- A request that is made until it is not answered with a shortage of quota. -/
def requested (r : Request) (attempts : Nat) (delay : Rat) :
    StateM (Client (Taped ω)) (Except Fault Value) :=
  retry (fun delay => onWire (Clock.sleep delay)) (onWire (Wire.send r)) attempts delay

theorem requested_made (r : Request) (attempts : Nat) (delay : Rat) (c : Client (Taped ω)) :
    Made c r (attempts + 1) (requested r (attempts + 1) delay c) := by
  obtain ⟨faults, last, hattempted, hend, htape⟩ := retry_attempted
    (fun delay => onWire (Clock.sleep delay)) (onWire (Wire.send r))
    (fun c : Client (Taped ω) => c.wire.exchanges) (fun answer => [(r, answer)])
    (fun _ => []) (fun _ => rfl) (fun _ _ => (List.append_nil _).symm) attempts delay c
  exact ⟨_, .of_attempted hattempted, hend, htape.trans (by rw [Tries.record_exchanges])⟩

/-- What a request leaves of a client: its tries are on the tape, delivered in the end or not. -/
def Tried (c : Client (Taped ω)) (r : Request) (isDelivered : Bool) (d : Client (Taped ω)) : Prop :=
  ∃ tries : Tries, tries.Lawful r maxAttempts ∧ tries.isDelivered = isDelivered ∧
    d.wire.exchanges = c.wire.exchanges ++ tries.exchanges

/-- What was answered in the end is the last exchange on the tape. -/
theorem request_answers (r : Request) (c : Client (Taped ω)) : Call.Ends (request r) c
    (fun v d => ∃ tries : Tries, tries.Lawful r maxAttempts ∧ tries.last = .ok v ∧
      d.wire.exchanges = c.wire.exchanges ++ tries.exchanges) fun _ => Tried c r false := by
  have hmade : Made c r maxAttempts (requested r maxAttempts firstPause c) :=
    requested_made r 4 firstPause c
  rw [Call.Ends, request, Call.run_bind, Call.run_liftM, ← requested]
  rcases hend : requested r maxAttempts firstPause c with ⟨fault | v, d⟩ <;>
    rw [hend] at hmade <;> obtain ⟨tries, hlawful, hleft, htape⟩ := hmade <;>
    cases hlast : tries.last <;> rw [hlast] at hleft <;> cases hleft
  · exact ⟨tries, hlawful, by rw [Tries.isDelivered, hlast]; rfl, htape⟩
  · exact ⟨tries, hlawful, hlast, htape⟩

theorem request_ends (r : Request) (c : Client (Taped ω)) :
    Call.Ends (request r) c (fun _ => Tried c r true) fun _ => Tried c r false :=
  (request_answers r c).impDone fun _ _ ⟨tries, hlawful, hlast, htape⟩ =>
    ⟨tries, hlawful, by rw [Tries.isDelivered, hlast]; rfl, htape⟩

/-! ### Requests in a row -/

/-- The tries of some requests, in order. A request that is not delivered is the last that is made.
-/
inductive Follows : List Request → List Tries → Prop
  | done : Follows [] []
  | next {r plan tries more} : Tries.Lawful tries r maxAttempts → tries.isDelivered = true →
      Follows plan more → Follows (r :: plan) (tries :: more)
  | stopped {r plan tries} : Tries.Lawful tries r maxAttempts → tries.isDelivered = false →
      Follows (r :: plan) [tries]

namespace Follows

variable {plan more : List Request} {tries others : List Tries}

theorem append (h : Follows plan tries) (hall : tries.all Tries.isDelivered = true)
    (hmore : Follows more others) : Follows (plan ++ more) (tries ++ others) := by
  induction h with
  | done => exact hmore
  | next hlawful hdelivered _ ih =>
    rw [List.all_cons, hdelivered, Bool.true_and] at hall
    exact .next hlawful hdelivered (ih hall)
  | stopped _ hfailed => simp [hfailed] at hall

theorem stop (h : Follows plan tries) (hall : tries.all Tries.isDelivered = false)
    (more : List Request) : Follows (plan ++ more) tries := by
  induction h with
  | done => cases hall
  | next hlawful hdelivered _ ih =>
    rw [List.all_cons, hdelivered, Bool.true_and] at hall
    exact .next hlawful hdelivered (ih hall)
  | stopped hlawful hfailed => exact .stopped hlawful hfailed

end Follows

/-! ### Requests that change nothing -/

/-- The exchanges with a client of requests that change what the service keeps. -/
def changes (c : Client (Taped ω)) : List RoundTrip := c.wire.changes

theorem request_leaves {r : Request} (h : r.method.isMutating = false) :
    Call.Leaves changes (request (ω := Taped ω) r) := by
  intro c
  have hquiet : ∀ isDelivered d, Tried c r isDelivered d → d.changes = c.changes := by
    rintro isDelivered d ⟨tries, hlawful, -, htape⟩
    rw [changes, Taped.changes, htape, List.filter_append, tries.filter_exchanges,
      hlawful.request, h]
    exact List.append_nil _
  exact Call.Ends.state (P := fun d => d.changes = c.changes)
    ((request_ends r c).imp (fun _ d => hquiet true d) fun _ d => hquiet false d)

theorem profile_leaves : Call.Leaves changes (profile (ω := Taped ω)) :=
  (request_leaves rfl).bind fun _ => .bind .get fun _ => .bind (.modify fun _ => rfl) fun _ =>
    .pure _

theorem listLabels_leaves : Call.Leaves changes (listLabels (ω := Taped ω)) :=
  (request_leaves rfl).bind fun _ => .pure _

theorem getLabel_leaves (id : String) : Call.Leaves changes (getLabel (ω := Taped ω) id) :=
  (request_leaves rfl).bind fun _ => .pure _

theorem listMessages_leaves (q : ListQuery) :
    Call.Leaves changes (listMessages (ω := Taped ω) q) :=
  (request_leaves rfl).bind fun _ => .pure _

/-! ### Ids in pieces -/

/-- The tries of the requests for some pieces of a list, in order. A piece that is not delivered is
the last that is sent. -/
inductive Sent (make : List String → Request) : List (List String) → List Tries → Prop
  | done : Sent make [] []
  | next {piece rest tries more} : Tries.Lawful tries (make piece) maxAttempts →
      tries.isDelivered = true → Sent make rest more → Sent make (piece :: rest) (tries :: more)
  | stopped {piece rest tries} : Tries.Lawful tries (make piece) maxAttempts →
      tries.isDelivered = false → Sent make (piece :: rest) [tries]

theorem Sent.changes {make : List String → Request}
    (hmake : ∀ ids, (make ids).method.isMutating = true) {pieces : List (List String)}
    {tries : List Tries} (h : Sent make pieces tries) :
    (tries.flatMap Tries.exchanges).filter (·.1.method.isMutating) =
      tries.flatMap Tries.exchanges := by
  induction h with
  | done => rfl
  | next hlawful _ _ ih =>
    rw [List.flatMap_cons, List.filter_append, ih, Tries.filter_exchanges, hlawful.request, hmake]
    rfl
  | stopped hlawful _ =>
    rw [List.flatMap_singleton, Tries.filter_exchanges, hlawful.request, hmake]
    rfl

/-- What the requests for pieces of a list leave of a client: their tries are on the tape, all
delivered in the end or not. -/
def Sends (c : Client (Taped ω)) (make : List String → Request) (pieces : List (List String))
    (isDelivered : Bool) (d : Client (Taped ω)) : Prop :=
  ∃ tries, Sent make pieces tries ∧ tries.all Tries.isDelivered = isDelivered ∧
    d.wire.exchanges = c.wire.exchanges ++ tries.flatMap Tries.exchanges

theorem pieces_ends (make : List String → Request) (pieces : List (List String)) :
    ∀ c : Client (Taped ω), Call.Ends (pieces.forM fun piece => perform (make piece)) c
      (fun _ => Sends c make pieces true) fun _ => Sends c make pieces false := by
  induction pieces with
  | nil => exact fun c => ⟨[], .done, rfl, by simp⟩
  | cons piece rest ih =>
    intro c
    rw [List.forM, perform, bind_assoc]
    refine ((request_ends (make piece) c).impFailed ?_).andThen fun _ d hd => ?_
    · rintro failure d ⟨tries, hlawful, hfailed, htape⟩
      exact ⟨[tries], .stopped hlawful hfailed, by simp [hfailed], by simpa using htape⟩
    · -- The piece was delivered, so the others decide.
      obtain ⟨tries, hlawful, hdelivered, htape⟩ := hd
      have hnext : ∀ isDelivered e, Sends d make rest isDelivered e →
          Sends c make (piece :: rest) isDelivered e := by
        rintro isDelivered e ⟨more, hsent, hall, he⟩
        refine ⟨tries :: more, .next hlawful hdelivered hsent, by simp [hdelivered, hall], ?_⟩
        rw [he, htape, List.flatMap_cons, List.append_assoc]
      rw [pure_bind]
      exact (ih d).imp (fun _ e => hnext true e) fun _ e => hnext false e

end Client

end Mailroom.Remote
