import Mailroom.Program.Run
import Mailroom.Proofs.Remote.Taped
import Mailroom.Proofs.Session.Operation

/-! Commands that change nothing. Connecting, looking labels up and listing messages send only
requests that leave the service as it is, and nothing is printed on the error stream but the
complaint with which a command ends early. -/

namespace Mailroom.Session

open Label (NodeRef)
open Remote (Client RoundTrip MailService Taped Wire)

section

variable {ω : Type}

/-- The exchanges of a session of requests that change what the service keeps. -/
def changes (s : Session (Client (Taped ω))) : List RoundTrip := s.outside.changes

theorem leaves_composes : Composes (σ := Client (Taped ω)) (fun x => Call.Leaves changes x) where
  state h hy s := by
    rw [h s]
    exact hy s
  pure := Call.Leaves.pure
  get := Call.Leaves.get
  bind := Call.Leaves.bind

theorem leaves_onOutside {α : Type} {x : Call (Client (Taped ω)) α}
    (hx : Call.Leaves Client.changes x) : Call.Leaves changes (onOutside x) := fun s => hx s.outside

end

variable {ω : Type} [Wire ω] [Clock ω]

theorem leaves_refresh : Call.Leaves changes (refresh (σ := Client (Taped ω))) :=
  (leaves_onOutside Client.listLabels_leaves).bind fun _ => .bind .get fun _ =>
    .bind (.modify fun _ => rfl) fun _ => .pure _

theorem leaves_load (r : NodeRef) : Call.Leaves changes (load (σ := Client (Taped ω)) r) :=
  .bind .get fun _ => .bind (leaves_onOutside (Client.getLabel_leaves _)) fun _ =>
    .bind .get fun _ => .bind (.modify fun _ => rfl) fun _ => .pure _

theorem leaves_entity (r : NodeRef) : Call.Leaves changes (entity (σ := Client (Taped ω)) r) := by
  refine leaves_composes.getThen fun s => .bind (leaves_composes.ofExcept _) fun standing => ?_
  cases standing with
  | loaded e => exact .pure e
  | missing generation =>
    exact (leaves_load r).bind fun _ => .bind (.modify fun _ => rfl) fun _ => .pure _

theorem leaves_connect : Call.Leaves changes (connect (ω := Taped ω)) :=
  (leaves_onOutside Client.profile_leaves).bind fun _ => .bind (.modify fun _ => rfl) fun _ =>
    .bind leaves_refresh fun _ => .pure _

theorem leaves_messageIds (q : Query) :
    Call.Leaves changes (messageIds (σ := Client (Taped ω)) q) :=
  leaves_composes.messageIds (fun _ => leaves_onOutside (Client.listMessages_leaves _)) q

end Mailroom.Session

namespace Mailroom.Program

open Remote (Client RoundTrip Taped Wire)
open Terminal (Action Console Halt bold red)

/-! ### Actions -/

section

variable {σ α β : Type}

theorem Action.run_bind (x : Action σ α) (f : α → Action σ β) (c : Console σ) :
    (x >>= f).run c = match x.run c with
    | (.ok a, d) => (f a).run d
    | (.error halt, d) => (.error halt, d) := by
  simp only [ExceptT.run, bind, ExceptT.bind, ExceptT.mk, StateT.bind]
  rcases x c with ⟨halt | a, d⟩
  · rfl
  · rfl

theorem Action.exists_of_bind_ok {x : Action σ α} {f : α → Action σ β} {c d : Console σ} {b : β}
    (h : (x >>= f).run c = (.ok b, d)) :
    ∃ a e, x.run c = (.ok a, e) ∧ (f a).run e = (.ok b, d) := by
  rw [Action.run_bind] at h
  rcases hrun : x.run c with ⟨halt | a, e⟩ <;> rw [hrun] at h
  · cases h
  · exact ⟨a, e, rfl, h⟩

theorem Action.run_of_toOption {x : Action σ α} {c : Console σ} {a : α}
    (h : (x.run c).1.toOption = some a) : x.run c = (.ok a, (x.run c).2) := by
  rcases hx : x.run c with ⟨halt | b, d⟩ <;> rw [hx] at h <;> cases h
  rfl

theorem Console.run_onWorld (x : Call σ α) (c : Console σ) :
    (Console.onWorld x).run c = ((x.run c.world).1, { c with world := (x.run c.world).2 }) := rfl

theorem Action.run_ofCall (x : Call (Console σ) α) (c : Console σ) :
    (Action.ofCall x).run c = match x.run c with
    | (.ok a, d) => (.ok a, d)
    | (.error failure, d) => (Action.fail failure : Action σ α).run d := by
  have hlift : (liftM (x.run : StateM (Console σ) (Except Failure α)) :
      Action σ (Except Failure α)).run c = (.ok (x.run c).1, (x.run c).2) := by
    simp only [liftM, monadLift, MonadLift.monadLift, ExceptT.run_lift]
    rfl
  simp only [Action.ofCall, Action.run_bind, hlift]
  rcases x.run c with ⟨failure | a, d⟩
  · rfl
  · rfl

theorem Action.toOption_fail (failure : Failure) (c : Console σ) :
    ((Action.fail failure : Action σ α).run c).1.toOption = none := by
  cases failure <;> rfl

theorem Action.of_ofExcept_ok {x : Except Failure α} {c d : Console σ} {a : α}
    (h : (Action.ofExcept x : Action σ α).run c = (.ok a, d)) : d = c := by
  cases x with
  | ok b => exact (Prod.mk.inj h).2.symm
  | error failure =>
    have hnone := Action.toOption_fail (σ := σ) (α := α) failure c
    change (Action.fail failure : Action σ α).run c = _ at h
    rw [h] at hnone
    cases hnone

/-- Nothing follows a failure. -/
theorem Action.fail_bind (failure : Failure) (f : α → Action σ β) (c : Console σ) :
    (Action.fail failure >>= f).run c = (Action.fail failure : Action σ β).run c := by
  cases failure <;> rfl

end

variable {ω α β : Type}

/-- The exchanges of a console's mailbox of requests that change what the service keeps. -/
def changes (c : Console (Mailbox (Taped ω))) : List RoundTrip := c.world.changes

/-- A command that sends no request for a change, and prints nothing on the error stream but the
complaint with which it ends early. What it answers is as `answers` says. -/
def Quiet (x : Command (Taped ω) α) (answers : α → Prop) : Prop :=
  ∀ c, changes (x.run c).2 = changes c ∧
    match x.run c with
    | (.ok a, d) => d.errors = c.errors ∧ answers a
    | (.error (.exit _), d) => ∃ text, d.errors = c.errors ++ (red.apply text ++ "\n")
    | (.error (.raised _), d) => d.errors = c.errors

namespace Quiet

variable {x : Command (Taped ω) α} {f : α → Command (Taped ω) β} {answers : α → Prop}
  {next : β → Prop}

theorem of_run {g : Console (Mailbox (Taped ω)) → Console (Mailbox (Taped ω))}
    {a : Console (Mailbox (Taped ω)) → α} (hrun : ∀ c, x.run c = (.ok (a c), g c))
    (hchanges : ∀ c, changes (g c) = changes c) (herrors : ∀ c, (g c).errors = c.errors)
    (hanswers : ∀ c, answers (a c)) : Quiet x answers := by
  intro c
  rw [hrun]
  exact ⟨hchanges c, herrors c, hanswers c⟩

theorem pure {a : α} (h : answers a) : Quiet (pure a : Command (Taped ω) α) answers :=
  of_run (fun _ => rfl) (fun _ => rfl) (fun _ => rfl) fun _ => h

theorem world :
    Quiet (Action.world : Command (Taped ω) (Mailbox (Taped ω))) fun _ => True :=
  of_run (fun _ => rfl) (fun _ => rfl) (fun _ => rfl) fun _ => trivial

theorem bind (hx : Quiet x answers) (hf : ∀ a, answers a → Quiet (f a) next) :
    Quiet (x >>= f) next := by
  intro c
  have hfirst := hx c
  rw [Action.run_bind]
  rcases hrun : x.run c with ⟨(_ | _) | a, d⟩ <;> rw [hrun] at hfirst
  · exact hfirst
  · exact hfirst
  · obtain ⟨hchanges, herrors, ha⟩ := hfirst
    have hrest := hf a ha d
    rwa [hchanges, herrors] at hrest

/-- A first part whose answer may be anything. -/
theorem andThen (hx : Quiet x fun _ => True) (hf : ∀ a, Quiet (f a) next) :
    Quiet (x >>= f) next :=
  bind hx fun a _ => hf a

theorem abort (text : String) : Quiet (Action.abort text : Command (Taped ω) α) answers :=
  fun _ => ⟨rfl, text, rfl⟩

theorem fail (failure : Failure) :
    Quiet (Action.fail failure : Command (Taped ω) α) answers := by
  rw [Action.fail]
  split
  · cases failure <;> exact abort _
  · exact fun _ => ⟨rfl, rfl⟩

theorem ofExcept (x : Except Failure α) (h : ∀ a, x = .ok a → answers a) :
    Quiet (Action.ofExcept x : Command (Taped ω) α) answers := by
  cases x with
  | ok a => exact pure (h a rfl)
  | error failure => exact fail failure

theorem onWorld {x : Op (Client (Taped ω)) α} (hx : Call.Leaves Session.changes x) :
    Quiet (Action.onWorld x : Command (Taped ω) α) fun _ => True := by
  intro c
  have hleaves := hx c.world
  rw [Action.onWorld, Action.run_ofCall, Console.run_onWorld]
  rcases hrun : x.run c.world with ⟨failure | a, world⟩ <;> rw [hrun] at hleaves
  · have hfail : Quiet (Action.fail failure : Command (Taped ω) α) fun _ => True := fail failure
    obtain ⟨hchanges, htells⟩ := hfail { c with world }
    exact ⟨hchanges.trans hleaves, htells⟩
  · exact ⟨hleaves, rfl, trivial⟩

theorem mapM {f : β → Command (Taped ω) α} (hf : ∀ b, Quiet (f b) fun _ => True)
    (items : List β) : Quiet (items.mapM f) fun _ => True := by
  induction items with
  | nil => exact pure trivial
  | cons b items ih =>
    rw [List.mapM_cons]
    exact andThen (hf b) fun _ => andThen ih fun _ => pure trivial

end Quiet

/-! ### What commands begin with -/

theorem quiet_nodeNamed (name : String) :
    Quiet (nodeNamed name : Command (Taped ω) Label.NodeRef) fun _ => True :=
  .onWorld (Session.leaves_composes.nodeByName name)

theorem quiet_queryLimit (a : Arguments) (plain : Option Rat) :
    Quiet (queryLimit a plain : Command (Taped ω) (Option Rat)) fun _ => True := by
  rw [queryLimit]
  split
  · exact .pure trivial
  · split
    · exact .pure trivial
    · split
      · exact .pure trivial
      · exact .abort _

theorem quiet_queryOf (s : Surroundings) (a : Arguments) :
    Quiet (queryOf s a : Command (Taped ω) Query) fun _ => True := by
  refine .andThen .world fun _ => .andThen (.ofExcept _ fun _ _ => trivial) fun filter =>
    .andThen (.mapM quiet_nodeNamed _) fun nodes => .andThen .world fun _ =>
    .andThen (quiet_queryLimit a _) fun limit => ?_
  dsimp only
  split
  · rw [map_eq_pure_bind]
    refine .andThen (.andThen (.ofExcept _ fun _ _ => trivial) fun _ => .pure trivial) fun _ => ?_
    exact .pure trivial
  · exact .pure trivial

theorem quiet_openMailbox [Wire ω] [Clock ω] (s : Surroundings) :
    Quiet (openMailbox s : Command (Taped ω) Unit) fun _ => True := by
  refine .andThen (.ofExcept _ fun _ _ => trivial) fun c =>
    .andThen (.ofExcept _ fun _ _ => trivial) fun _ =>
    .andThen ?_ fun _ => .onWorld Session.leaves_connect
  exact .of_run (fun _ => rfl) (fun _ => rfl) (fun _ => rfl) fun _ => trivial

/-! ### Outcomes -/

/-- The console that a run starts with. -/
def startConsole (s : Surroundings) (wire : ω) : Console (Mailbox ω) where
  world := Session.onWire wire {}
  isTerminal := s.isTerminal
  typed := s.typed.map String.toList

/-- What a run comes to, by how its command ended. -/
def finish (help : String) (ending : Except Halt Unit × Console (Mailbox ω)) : Outcome ω :=
  let (status, console) := Action.status help ending.1 ending.2
  ⟨console.output, console.errors, status, console.world.outside.wire⟩

theorem run_eq [Wire ω] [Clock ω] (s : Surroundings) (wire : ω) (arguments : List String) :
    run s wire arguments = finish (commandOf (ω := ω) s arguments).1
      ((commandOf s arguments).2.run (startConsole s wire)) := rfl

/-- What is on the error stream when a command ended early: its complaint, or the failure that
nobody answered for and where to find help. -/
inductive Complains : String → Prop
  | ended (text : String) : Complains (red.apply text ++ "\n")
  | raised (failure : Failure) (help : String) :
      Complains (red.apply (bold.apply "error:") ++ " " ++ failure.message ++ "\n\n"
        ++ "Run \"" ++ help ++ " --help\" for usage information.\n")

theorem Complains.red_first {errors : String} (h : Complains errors) :
    ∃ text rest, errors = red.apply text ++ rest := by
  cases h with
  | ended text => exact ⟨text, "\n", rfl⟩
  | raised failure help =>
    refine ⟨bold.apply "error:", " " ++ failure.message ++ "\n\n"
      ++ ("Run \"" ++ help ++ " --help\" for usage information.\n"), ?_⟩
    simp only [String.append_assoc]

theorem finish_wire (help : String) (ending : Except Halt Unit × Console (Mailbox ω)) :
    (finish help ending).wire = ending.2.world.outside.wire := by
  rcases ending with ⟨(_ | _) | _, c⟩ <;> rfl

section

variable {x : Command (Taped ω) Unit} {answers : Unit → Prop} (hx : Quiet x answers) (help : String)
  {c : Console (Mailbox (Taped ω))}
include hx

theorem Quiet.finish_changes : (finish help (x.run c)).wire.changes = changes c := by
  rw [finish_wire]
  exact (hx c).1

/-- Nothing is on the error stream in the end but the complaint of a command that ended early. -/
theorem Quiet.finish_errors (herrors : c.errors = "") :
    match (x.run c).1 with
    | .ok _ => (finish help (x.run c)).errors = ""
    | .error _ => Complains (finish help (x.run c)).errors := by
  have htells := (hx c).2
  rcases hrun : x.run c with ⟨(status | failure) | _, d⟩ <;> rw [hrun] at htells
  · obtain ⟨text, htext⟩ := htells
    rw [herrors, String.empty_append] at htext
    change Complains d.errors
    rw [htext]
    exact .ended text
  · have hnone : d.errors = "" := htells.trans herrors
    simp only [finish, Action.status, Console.writeError]
    change Complains (d.errors ++ _)
    rw [hnone, String.empty_append]
    exact .raised failure help
  · exact htells.1.trans herrors

end

theorem finish_fail (failure : Failure) (help : String) {c : Console (Mailbox (Taped ω))}
    (herrors : c.errors = "") :
    let o := finish help ((Action.fail failure : Command (Taped ω) Unit).run c)
    o.wire.changes = changes c ∧ Complains o.errors := by
  have hquiet : Quiet (Action.fail failure : Command (Taped ω) Unit) fun _ => True := .fail failure
  have hcomplains := hquiet.finish_errors help herrors
  have hnone := Action.toOption_fail (α := Unit) failure c
  refine ⟨hquiet.finish_changes help, ?_⟩
  split at hcomplains
  case h_1 hok => simp [hok, Except.toOption] at hnone
  case h_2 => exact hcomplains

end Mailroom.Program
