import Mailroom.Program.Run
import Mailroom.Proofs.Program.Quiet
import Mailroom.Proofs.Session.Addressing
import Mailroom.Remote.Script

/-! The commands that show, rename and delete a label of the user by its name. Such a command asks
for the label, does what it is told and lists the labels again, all with one id. That is the id of
the label with the name, unless the name is the id of another label. -/

namespace Mailroom.Program

open Label (Tag isFixedId)
open Label.Directory (addressed)
open Remote (Client LabelBody Request RoundTrip Script Taped Tries Wire)
open Terminal (Action Console)

/-! ### What a command does to its world -/

/-- A command that does to its world what an operation does: both end early or none does, with the
same answer and in the same world. What is printed does not matter. -/
def Enacts {σ α : Type} (x : Action σ α) (y : Call σ α) : Prop :=
  ∀ c : Console σ, (x.run c).1.toOption = (y.run c.world).1.toOption ∧
    (x.run c).2.world = (y.run c.world).2

namespace Enacts

variable {σ α β : Type} {x : Action σ α} {y : Call σ α} {f : α → Action σ β} {g : α → Call σ β}

theorem pure (a : α) : Enacts (pure a : Action σ α) (Pure.pure a) := fun _ => ⟨rfl, rfl⟩

theorem world : Enacts (Action.world : Action σ σ) get := fun _ => ⟨rfl, rfl⟩

theorem abort (text : String) (failure : Failure) :
    Enacts (Action.abort text : Action σ α) (throw failure) := fun _ => ⟨rfl, rfl⟩

theorem fail (failure : Failure) : Enacts (Action.fail failure : Action σ α) (throw failure) :=
  fun _ => by cases failure <;> exact ⟨rfl, rfl⟩

theorem onWorld (y : Call σ α) : Enacts (Action.onWorld y) y := by
  intro c
  rw [Action.onWorld, Action.run_ofCall, Console.run_onWorld]
  rcases y.run c.world with ⟨failure | a, t⟩
  · exact fail failure { c with world := t }
  · exact ⟨rfl, rfl⟩

theorem bind (hx : Enacts x y) (hf : ∀ a, Enacts (f a) (g a)) : Enacts (x >>= f) (y >>= g) := by
  intro c
  obtain ⟨hanswer, hworld⟩ := hx c
  rw [Action.run_bind, Call.run_bind]
  rcases hrun : x.run c with ⟨halt | a, d⟩ <;> rcases hy : y.run c.world with ⟨failure | b, t⟩ <;>
    rw [hrun, hy] at hanswer hworld
  · exact ⟨rfl, hworld⟩
  · cases hanswer
  · cases hanswer
  · obtain rfl := Option.some.inj hanswer
    obtain rfl : d.world = t := hworld
    exact hf a d

theorem of_ok (hx : Enacts x y) {c d : Console σ} {a : α} (h : x.run c = (.ok a, d)) :
    y.run c.world = (.ok a, d.world) := by
  obtain ⟨hanswer, hworld⟩ := hx c
  rw [h] at hanswer hworld
  rw [Call.run_of_toOption hanswer.symm, ← hworld]

theorem document (v : Value) : Enacts (Console.document σ v : Action σ Unit) (Pure.pure ()) :=
  fun _ => ⟨rfl, rfl⟩

theorem success (text : String) : Enacts (Console.success σ text : Action σ Unit) (Pure.pure ()) :=
  fun _ => ⟨rfl, rfl⟩

end Enacts

variable {ω : Type} [Wire ω] [Clock ω]

theorem enacts_findLabel (word : String) :
    Enacts (findLabel word : Command ω _) (Session.lookUp word) := by
  refine .bind .world fun s => ?_
  simp only [Label.Registry.getById]
  cases s.directory.registry.byId.get? word with
  | some r =>
    dsimp only
    rw [pure_bind]
    exact .onWorld _
  | none => exact (Enacts.onWorld _).bind fun r => .onWorld _

theorem enacts_findUserLabel (word : String) :
    Enacts (findUserLabel word : Command ω _) (Session.lookUpUser word) := by
  refine (enacts_findLabel word).bind fun e => .bind .world fun s => ?_
  split
  · exact .pure e
  · exact .abort _ _

/-! ### Commands on a label -/

/-- The commands on a label that is there. -/
inductive LabelCommand
  | get
  | rename
  | delete
deriving DecidableEq, Repr

namespace LabelCommand

def usage : LabelCommand → Usage
  | get => ⟨["label", "get"], ["name"], []⟩
  | rename => ⟨["label", "rename"], ["name", "newName"], []⟩
  | delete => ⟨["label", "delete"], ["name"], [switch "recursive", switch "force"]⟩

def command (s : Surroundings) (a : Arguments) : LabelCommand → Command ω Unit
  | get => labelGet s a
  | rename => labelRename s a
  | delete => labelDelete s a

/-- What the command does to an open mailbox. -/
def op (a : Arguments) : LabelCommand → Op (Client ω) Unit
  | get => do let _ ← Session.lookUp (a.operand 0)
  | rename => do
    let e ← Session.lookUpUser (a.operand 0)
    let _ ← Session.updateLabel e (some (a.operand 1)) {}
  | delete => do
    let e ← Session.lookUpUser (a.operand 0)
    let _ ← Session.deleteLabel e (a.isGiven "recursive")

/-- The requests of the command for the label with an id. A label that is not the user's is asked
for and left alone. -/
def plan (a : Arguments) (id : String) : LabelCommand → List Request
  | get => [.getLabel id]
  | rename => .getLabel id :: if isFixedId id then [] else
      [.updateLabel id (.of (some (a.operand 1)) {}), .getLabel id, .listLabels]
  | delete => .getLabel id :: if isFixedId id then [] else [.deleteLabel id, .listLabels]

theorem commandOf_usage (k : LabelCommand) (s : Surroundings) (rest : List String) :
    (commandOf s (k.usage.words ++ rest) : String × Command ω Unit) =
      ("mailquery " ++ k.usage.name, match Arguments.readAll k.usage rest with
        | .ok a => k.command s a
        | .error reason => Action.fail (misuse reason)) := by
  cases k <;> rfl

theorem command_enacts (k : LabelCommand) (s : Surroundings) {a : Arguments}
    (hforced : k = .delete → a.isGiven "force" = true) : ∃ tail : Command ω Unit,
      k.command s a = (openMailbox s >>= fun _ => tail) ∧ Enacts tail (k.op a) := by
  cases k with
  | get =>
    exact ⟨_, rfl, (enacts_findLabel _).bind fun e => .bind .world fun _ => .document _⟩
  | rename =>
    exact ⟨_, rfl, (enacts_findUserLabel _).bind fun e => (Enacts.onWorld _).bind fun e =>
      .bind .world fun _ => .bind (.document _) fun _ => .success _⟩
  | delete =>
    rw [command, labelDelete]
    simp only [hforced rfl, Bool.not_true, Bool.and_false, Bool.false_eq_true, if_false, pure_bind,
      if_true]
    exact ⟨_, rfl, (enacts_findUserLabel _).bind fun e => .bind .world fun _ =>
      (Enacts.onWorld _).bind fun _ => .document _⟩

/-- The requests of the command go by one id, that of the label that its first operand stands for.
-/
theorem op_sends (k : LabelCommand) {a : Arguments}
    (hplain : k = .delete → a.isGiven "recursive" = false) {s : Mailbox (Taped ω)} {id : String}
    {r : Label.NodeRef} (h : s.directory.Addresses (a.operand 0) id r) :
    let t := ((k.op a).run s).2
    Session.Faithful t.tape → ∃ isDelivered, Session.Sends s (k.plan a id) isDelivered t := by
  cases k with
  | get =>
    have hget : Session.Pursues (op a get) s [.getLabel id] fun _ _ => True :=
      (Session.lookUp_sends h).bind fun _ _ _ => .of_run rfl rfl trivial
    exact fun _ => Call.Ends.state (P := fun t => ∃ b, Session.Sends s [.getLabel id] b t)
      (Call.Ends.imp hget (fun _ _ ht => ⟨true, ht.1⟩) fun _ _ ht => ⟨false, ht⟩)
  | rename =>
    have hbody : (LabelBody.of (some (a.operand 1)) {}).isEmpty = false := by
      simp [LabelBody.isEmpty, LabelBody.of]
    exact Session.lookUpUser_sends h
      (fun id => [.updateLabel id (.of (some (a.operand 1)) {}), .getLabel id, .listLabels])
      fun e t => (Session.updateLabel_sends t e hbody).bind fun _ _ _ =>
        .of_run rfl rfl trivial
  | delete =>
    have hflat := hplain rfl
    refine Session.lookUpUser_sends h (fun id => [.deleteLabel id, .listLabels])
      fun e t => ?_
    rw [hflat]
    exact (Session.deleteLabel_sends t e).bind fun _ _ _ =>
      .of_run rfl rfl trivial

end LabelCommand

/-! ### Runs -/

/-- The labels of the user in the answer to the last request, if that was for all labels. -/
def listed (tape : List RoundTrip) : List Tag :=
  match tape.getLast? with
  | some (.listLabels, .ok answer) => Session.userLabels (Session.labelsIn answer)
  | _ => []

/-- A mailbox is opened by connecting it, with the settings of the surroundings. -/
theorem openMailbox_connects {s : Surroundings} {c d : Console (Mailbox (Taped ω))}
    (h : (openMailbox s).run c = (.ok (), d)) :
    ∃ settings, Session.connect.run { c.world with settings } = (.ok (), d.world) := by
  obtain ⟨configuration, c₁, hread, haccess⟩ := Action.exists_of_bind_ok h
  obtain rfl := Action.of_ofExcept_ok hread
  obtain ⟨_, c₂, hgranted, hset⟩ := Action.exists_of_bind_ok haccess
  obtain rfl := Action.of_ofExcept_ok hgranted
  obtain ⟨_, c₃, hmodified, hconnect⟩ := Action.exists_of_bind_ok hset
  obtain ⟨-, rfl⟩ := Prod.mk.inj hmodified
  exact ⟨configuration.settings, (Enacts.onWorld _).of_ok hconnect⟩

/-- An opened mailbox has asked for the address and for the labels, and knows the labels. -/
theorem openMailbox_ok {s : Surroundings} {c d : Console (Mailbox (Taped ω))}
    (h : (openMailbox s).run c = (.ok (), d)) :
    Session.Sends c.world [.profile, .listLabels] true d.world ∧ ∃ records,
      listed d.world.tape = Session.userLabels records ∧
      d.world.directory = (Session.refreshed c.world.directory records).2 := by
  obtain ⟨settings, hconnect⟩ := openMailbox_connects h
  obtain ⟨hsends, answer, hlast, hdirectory⟩ :=
    Call.Ends.ok (Session.connect_sends _) hconnect
  refine ⟨hsends, Session.labelsIn answer, ?_, hdirectory⟩
  rw [listed, hlast]

section Run

variable (s : Surroundings) (wire : ω) (k : LabelCommand) {rest : List String} {a : Arguments}
  (hread : Arguments.readAll k.usage rest = .ok a)
  (hforced : k = .delete → a.isGiven "force" = true) {c : Console (Mailbox (Taped ω))}
  (hopen : (openMailbox s).run (startConsole s (⟨wire, []⟩ : Taped ω)) = (.ok (), c))
include hread hforced hopen

/-- A run of the command leaves on the wire what the command does to the opened mailbox. -/
theorem run_exchanges : (run s (⟨wire, []⟩ : Taped ω) (k.usage.words ++ rest)).wire.exchanges =
    Session.tape ((k.op a).run c.world).2 := by
  obtain ⟨tail, hcommand, hacts⟩ := k.command_enacts (ω := Taped ω) s hforced
  rw [run_eq, k.commandOf_usage, hread, finish_wire]
  dsimp only
  rw [hcommand, Action.run_bind, hopen]
  exact congrArg Session.tape (hacts c).2

/-- The commands on a label ask for the label, change it and list the labels again by the id of the
label that has the name, unless the name is the id of another label: then they do so by that id.
Every label that is asked for by its id has to be answered with one of that id. -/
theorem run_label_command (hplain : k = .delete → a.isGiven "recursive" = false)
    (hids : ((listed c.world.tape).map Tag.id).Nodup)
    (hnames : ((listed c.world.tape).map Tag.name).Nodup) {l : Tag}
    (hl : l ∈ listed c.world.tape) (hname : l.name = a.operand 0) :
    let o := run s (⟨wire, []⟩ : Taped ω) (k.usage.words ++ rest)
    let id := addressed (listed c.world.tape) l
    Session.Faithful o.wire.exchanges → ∃ tries,
      Client.Follows (.profile :: .listLabels :: k.plan a id) tries ∧
        o.wire.exchanges = tries.flatMap Tries.exchanges := by
  intro o id hfaithful
  have hexchanges : o.wire.exchanges = _ := run_exchanges s wire k hread hforced hopen
  obtain ⟨hopened, records, hlisted, hdirectory⟩ := openMailbox_ok hopen
  rw [hlisted] at hids hnames hl
  obtain ⟨r, haddresses⟩ := Label.Directory.exists_addressed hids hnames hl
  rw [← hlisted, hname] at haddresses
  have haddressed : c.world.directory.Addresses (a.operand 0) id r := hdirectory ▸ haddresses
  rw [hexchanges] at hfaithful ⊢
  obtain ⟨isDelivered, hsends⟩ := k.op_sends hplain haddressed hfaithful
  obtain ⟨tries, hfollows, -, htape⟩ := hopened.trans hsends
  exact ⟨tries, hfollows, htape⟩

end Run

/-- A label is deleted by a name that is the id of another label: the other label is deleted. -/
theorem run_label_command_shadowed :
    let s : Surroundings := {
      zone := .universal
      home := ""
      environment := .ofList [("MAILQUERY_CLIENT_ID", "client")]
      files _ :=
        some "\x7b\"email\":\"me@example.com\",\"tokens\":\x7b\"access_token\":\"a\"\x7d\x7d" }
    let label (id name : String) : Value := .obj [("id", .str id), ("name", .str name)]
    let named := label "Label_1" "Label_2"
    let other := label "Label_2" "Other"
    let wire : Script := {
      replies := [.ok (.obj []), .ok (.obj [("labels", .arr [named, other])]), .ok other,
        .ok (.obj []), .ok (.obj [("labels", .arr [named])])] }
    let o := run s (⟨wire, []⟩ : Taped Script) ["label", "delete", "Label_2", "--force"]
    let plan : List Request :=
      [.profile, .listLabels, .getLabel "Label_2", .deleteLabel "Label_2", .listLabels]
    o.wire.exchanges.map Prod.fst = plan ∧ ∃ tries, Client.Follows plan tries ∧
      o.wire.exchanges = tries.flatMap Tries.exchanges := by
  intro s label named other wire
  let start : Console (Mailbox (Taped Script)) := startConsole s ⟨wire, []⟩
  let a : Arguments := ⟨["Label_2"], [("force", "")]⟩
  have hopened : ((openMailbox s).run start).1.toOption = some () := by
    subst start s label named other wire
    decide +kernel
  have hopen := Action.run_of_toOption hopened
  generalize ((openMailbox s).run start).2 = c at hopen
  obtain ⟨settings, hconnect⟩ := openMailbox_connects hopen
  -- The rebuilt directory stays a name: nothing but what the word stands for in it matters.
  let records := Session.labelsIn (.obj [("labels", .arr [named, other])])
  let d := (Session.refreshed .initial records).2
  let answered : List RoundTrip :=
    [(.profile, .ok (.obj [])), (.listLabels, .ok (.obj [("labels", .arr [named, other])]))]
  let opened : Mailbox (Taped Script) := {
    outside := ⟨"unknown", ⟨⟨[.ok other, .ok (.obj []), .ok (.obj [("labels", .arr [named])])],
      [.profile, .listLabels], []⟩, answered⟩⟩
    settings, directory := d, email := some "unknown" }
  have hconnected : Session.connect.run { start.world with settings } = (.ok (), opened) := rfl
  have hworld : c.world = opened := (Prod.mk.inj (hconnect.symm.trans hconnected)).2
  have hlabels : Session.userLabels records =
      [⟨"Label_1", "Label_2"⟩, ⟨"Label_2", "Other"⟩] := by
    subst records other named label
    decide +kernel
  have hlisted : listed c.world.tape = [⟨"Label_1", "Label_2"⟩, ⟨"Label_2", "Other"⟩] := by
    rw [hworld]
    exact hlabels
  have haddressed : addressed [⟨"Label_1", "Label_2"⟩, ⟨"Label_2", "Other"⟩]
      ⟨"Label_1", "Label_2"⟩ = "Label_2" := by decide +kernel
  have hfound : ∃ r, d.Addresses "Label_2"
      (addressed (Session.userLabels records) ⟨"Label_1", "Label_2"⟩) r :=
    Label.Directory.exists_addressed (l := ⟨"Label_1", "Label_2"⟩) (by rw [hlabels]; decide)
      (by rw [hlabels]; decide) (by rw [hlabels]; decide)
  rw [hlabels, haddressed] at hfound
  obtain ⟨r, haddresses⟩ := hfound
  clear_value d
  have hget : (Remote.MailService.getLabel "Label_2").run opened.outside =
      (.ok (.ofValue other "Label_2"), _) := rfl
  have hfind := Session.lookUpUser_run (s := opened) haddresses (by decide +kernel) hget
  have hop : LabelCommand.delete.op (ω := Taped Script) a = (do
      let e ← Session.lookUpUser "Label_2"
      let _ ← Session.deleteLabel e false) := rfl
  have htape : Session.tape ((LabelCommand.delete.op a).run c.world).2 =
      [(.profile, .ok (.obj [])), (.listLabels, .ok (.obj [("labels", .arr [named, other])])),
        (.getLabel "Label_2", .ok other), (.deleteLabel "Label_2", .ok (.obj [])),
        (.listLabels, .ok (.obj [("labels", .arr [named])]))] := by
    rw [hworld, hop, Call.run_bind, hfind]
    rfl
  have hread : Arguments.readAll LabelCommand.delete.usage ["Label_2", "--force"] = .ok a := by
    decide +kernel
  have hplan : LabelCommand.delete.plan a "Label_2" =
      [.getLabel "Label_2", .deleteLabel "Label_2", .listLabels] := by decide +kernel
  have hexchanges := (run_exchanges s wire .delete hread (fun _ => rfl) hopen).trans htape
  have hrun := run_label_command s wire .delete hread (fun _ => rfl) hopen (fun _ => rfl)
    (by rw [hlisted]; decide) (by rw [hlisted]; decide) (l := ⟨"Label_1", "Label_2"⟩)
    (by rw [hlisted]; decide) rfl
  simp only [hlisted, haddressed, hplan, hexchanges] at hrun
  have hwords : ["label", "delete", "Label_2", "--force"] =
      LabelCommand.delete.usage.words ++ ["Label_2", "--force"] := rfl
  rw [hwords]
  intro o plan
  rw [hexchanges]
  refine ⟨rfl, hrun fun id v hasked => ?_⟩
  have hother : id = "Label_2" ∧ v = other := by simpa using hasked
  obtain ⟨rfl, rfl⟩ := hother
  rfl

end Mailroom.Program
