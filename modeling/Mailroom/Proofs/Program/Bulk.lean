import Mailroom.Program.Run
import Mailroom.Proofs.Data.Runs
import Mailroom.Proofs.Program.Quiet
import Mailroom.Remote.Script

/-! The command for bulk actions. Unless it is told to commit it changes nothing; if it is, the
messages that were listed are changed in pieces, in their order, up to the first piece that fails,
and the number of them is reported only if none failed. -/

namespace Mailroom.Program

open Remote (Client LabelChange Request Script Taped Tries Wire)
open Terminal (Action Console Paint dim green red)

/-! ### Reports -/

/-- The line that reports an action on so many messages. -/
def successLine (name : BulkName) (n : Nat) : String :=
  green.apply (name.text ++ ": " ++ counted n "message(s)") ++ "\n"

/-- Whether what is printed on the error stream starts with the report of an action. -/
def Reports (errors : String) : Prop :=
  ∃ name n, (successLine name n).toList <+: errors.toList

theorem toList_painted (p : Paint) (text rest : String) : ∃ more,
    (p.apply text ++ rest).toList = p.opening ++ more :=
  ⟨p.inside p.opening.length text.toList ++ p.closing ++ rest.toList, by
    rw [String.toList_append, Paint.apply, String.toList_ofList, Paint.chars]
    simp only [List.append_assoc]⟩

theorem reports_successLine (name : BulkName) (n : Nat) : Reports (successLine name n) :=
  ⟨name, n, List.prefix_rfl⟩

/-- A report is green, so nothing in a paint that begins in another way is one. -/
theorem not_reports_painted {p : Paint}
    (hp : ¬(p.opening <+: green.opening ∨ green.opening <+: p.opening)) (text rest : String) :
    ¬Reports (p.apply text ++ rest) := by
  rintro ⟨name, n, hprefix⟩
  obtain ⟨more, hpainted⟩ := toList_painted p text rest
  obtain ⟨others, hgreen⟩ := toList_painted green (name.text ++ ": " ++ counted n "message(s)") "\n"
  rw [successLine, hgreen, hpainted] at hprefix
  exact hp (List.prefix_or_prefix_of_prefix (List.prefix_append ..)
    ((List.prefix_append ..).trans hprefix))

theorem not_reports_empty : ¬Reports "" := by
  rintro ⟨name, n, hprefix⟩
  obtain ⟨others, hgreen⟩ := toList_painted green (name.text ++ ": " ++ counted n "message(s)") "\n"
  rw [successLine, hgreen] at hprefix
  exact absurd (List.prefix_nil.mp hprefix) (by simp [green, Paint.ofCodes, Terminal.sequence])

theorem not_reports_complaint {errors : String} (h : Complains errors) : ¬Reports errors := by
  obtain ⟨text, rest, rfl⟩ := h.red_first
  exact not_reports_painted (by decide) text rest

/-- The remark on messages to which nothing is done. -/
def dryRunLine : String := dim.apply "# Dry run. Pass --commit to apply" ++ "\n"

/-- The error stream without a report: nothing, the remark on a dry run, or a complaint. -/
inductive Unreported : String → Prop
  | nothing : Unreported ""
  | dryRun : Unreported dryRunLine
  | complaint {errors} : Complains errors → Unreported errors

theorem Unreported.not_reports {errors : String} (h : Unreported errors) : ¬Reports errors := by
  cases h with
  | nothing => exact not_reports_empty
  | dryRun => exact not_reports_painted (by decide) _ _
  | complaint h => exact not_reports_complaint h

section

variable {ω : Type}

/-- An outcome without a change and without a report. -/
structure Outcome.Unchanging (o : Outcome (Taped ω)) : Prop where
  changes : o.wire.changes = []
  errors : Unreported o.errors
  reports : ¬Reports o.errors

theorem Outcome.unchanging {o : Outcome (Taped ω)} (hchanges : o.wire.changes = [])
    (herrors : Unreported o.errors) : o.Unchanging :=
  ⟨hchanges, herrors, herrors.not_reports⟩

theorem Quiet.unchanging {x : Command (Taped ω) Unit} {answers : Unit → Prop} (hx : Quiet x answers)
    (help : String) {c : Console (Mailbox (Taped ω))} (hchanges : changes c = [])
    (herrors : c.errors = "") : (finish help (x.run c)).Unchanging := by
  refine Outcome.unchanging ((hx.finish_changes help).trans hchanges) ?_
  have hend := hx.finish_errors help herrors
  split at hend
  · exact hend ▸ .nothing
  · exact .complaint hend

end

variable {ω : Type} [Wire ω] [Clock ω]

/-! ### What bulk actions begin with -/

/-- How the command is called. -/
def bulkUsage : Usage :=
  ⟨["bulk"], ["action"], filterParameters ++ [{ name := "target" }, switch "commit"]⟩

theorem commandOf_bulk (s : Surroundings) (arguments : List String) :
    (commandOf s ("bulk" :: arguments) : String × Command ω Unit) =
      ("mailquery bulk", match Arguments.readAll bulkUsage arguments with
        | .ok a => bulk s a
        | .error reason => Action.fail (misuse reason)) := by
  rfl

/-- What comes before the messages are listed: the mailbox is opened, and the arguments are made
into a query, an action on it and a description of it. -/
def prepare (s : Surroundings) (a : Arguments) (name : BulkName) :
    Command ω (Query × BulkAction (Mailbox ω) × Value) := do
  openMailbox s
  let q ← queryOf s a
  let action ← bulkActionOf q (a.text "target") name
  let query ← Action.ofExcept (q.describe (← Action.world : Mailbox ω).settings)
  return (q, action, query)

/-- Listing the messages, showing what is about to be changed, and changing it. -/
def carryOut (s : Surroundings) (a : Arguments) (name : BulkName)
    (prepared : Query × BulkAction (Mailbox ω) × Value) : Command ω Unit := do
  let callback := preview s name (a.isGiven "commit") prepared.2.2
  let affected ←
    Action.ofCall (Scoped.within (Scoped.run (besideConsole prepared.2.1) callback))
  if 0 < affected then
    Console.success (Mailbox ω) (name.text ++ ": " ++ counted affected "message(s)")

theorem bulk_eq {s : Surroundings} {a : Arguments} {name : BulkName}
    (hname : BulkName.ofText? (a.operand 0) = some name) :
    (bulk s a : Command ω Unit) = prepare s a name >>= carryOut s a name := by
  simp only [bulk, hname, prepare, carryOut, bind_assoc, pure_bind]

/-- The messages that a bulk action is about: those that are listed for its query once the command
is prepared, no messages if the command ends before that. -/
def captured (s : Surroundings) (a : Arguments) (name : BulkName) (wire : ω) : List String :=
  ((prepare s a name >>= fun prepared => Action.onWorld (Session.messageIds prepared.1)).run
    (startConsole s wire)).1.toOption.getD []

/-- An action on the messages of a query that deletes them if it is named so, and changes their
labels otherwise. -/
def Suits (q : Query) (name : BulkName) (action : BulkAction (Mailbox ω)) : Prop :=
  ∃ change, action = Session.bulkOf q change ∧ (change = none ↔ name = .delete)

theorem Suits.listing {q : Query} {name : BulkName} {action : BulkAction (Mailbox ω)}
    (h : Suits q name action) : action.listing = Session.messageIds q := by
  obtain ⟨change, rfl, -⟩ := h
  cases change <;> rfl

theorem suits_of_change {q : Query} {name : BulkName} (hname : name ≠ .delete)
    (change : LabelChange) : Suits q name (Session.bulkChange (σ := Client ω) q change) :=
  ⟨some change, rfl, by simp [hname]⟩

theorem suits_mark {q : Query} {name : BulkName} (hname : name ≠ .delete) (s : Mailbox ω)
    (l : Label.System) (isSet : Bool) : Suits q name (Session.bulkMark s q l isSet) := by
  cases isSet with
  | true => exact suits_of_change hname _
  | false => exact suits_of_change hname _

omit [Wire ω] [Clock ω] in
theorem quiet_targetNode (target : String) :
    Quiet (targetNode target : Command (Taped ω) Label.NodeRef) fun _ => True := by
  rw [targetNode]
  split
  · exact .abort _
  · exact quiet_nodeNamed target

theorem quiet_bulkActionOf (q : Query) (target : String) (name : BulkName) :
    Quiet (bulkActionOf q target name : Command (Taped ω) _) (Suits q name) := by
  cases name with
  | read => exact .andThen .world fun s => .pure (suits_mark (by decide) s _ _)
  | unread => exact .andThen .world fun s => .pure (suits_mark (by decide) s _ _)
  | star => exact .andThen .world fun s => .pure (suits_mark (by decide) s _ _)
  | unstar => exact .andThen .world fun s => .pure (suits_mark (by decide) s _ _)
  | important => exact .andThen .world fun s => .pure (suits_mark (by decide) s _ _)
  | unimportant => exact .andThen .world fun s => .pure (suits_mark (by decide) s _ _)
  | archive => exact .andThen .world fun s => .pure (suits_of_change (by decide) _)
  | delete => exact .pure ⟨none, rfl, by simp⟩
  | addLabel =>
    exact .andThen (quiet_targetNode target) fun _ => .andThen .world fun s =>
      .pure (suits_of_change (by decide) _)
  | removeLabel =>
    exact .andThen (quiet_targetNode target) fun _ => .andThen .world fun s =>
      .pure (suits_of_change (by decide) _)
  | category =>
    refine .andThen (quiet_targetNode target) fun r =>
      .andThen (.onWorld (Session.leaves_entity r)) fun e => .andThen .world fun s => ?_
    split
    · refine .ofExcept _ fun action haction => ?_
      rw [Session.bulkCategory] at haction
      split at haction <;> cases haction
      exact suits_of_change (by decide) _
    · exact .abort _

theorem quiet_prepare (s : Surroundings) (a : Arguments) (name : BulkName) :
    Quiet (prepare s a name : Command (Taped ω) _) fun prepared =>
      Suits prepared.1 name prepared.2.1 :=
  .andThen (quiet_openMailbox s) fun _ => .andThen (quiet_queryOf s a) fun q =>
    .bind (quiet_bulkActionOf q _ name) fun _ haction => .andThen .world fun _ =>
    .andThen (.ofExcept _ fun _ _ => trivial) fun _ => .pure haction

/-! ### Showing what is about to be changed -/

/-- The error stream with the remark on messages to which nothing is done. -/
def remarked (isCommitted : Bool) (ids : List String) (errors : String) : String :=
  if ids.isEmpty || isCommitted then errors
  else errors ++ dryRunLine

omit [Wire ω] [Clock ω] in
theorem preview_run {s : Surroundings} (hpiped : s.typed = none) (name : BulkName)
    (isCommitted : Bool) (query : Value) (ids : List String) (c : Console (Mailbox ω)) :
    ∃ output, (preview s name isCommitted query).run ⟨⟨some ids, false⟩, c⟩ = (.ok (),
      ⟨⟨some ids, isCommitted && !ids.isEmpty⟩,
        { c with output, errors := remarked isCommitted ids c.errors }⟩) := by
  have hpassive : (decide (name = .delete) && s.isInteractive) = false := by
    simp [Surroundings.isInteractive, hpiped]
  rw [preview]
  simp only [hpassive]
  cases ids with
  | nil => cases isCommitted <;> exact ⟨_, rfl⟩
  | cons id ids => cases isCommitted <;> exact ⟨_, rfl⟩

/-! ### What is done -/

/-- The request for an action on some messages. -/
def bulkRequest : Option LabelChange → List String → Request
  | some change => (.modifyMessages · change)
  | none => .deleteMessages

theorem bulkRequest_mutating (change : Option LabelChange) (ids : List String) :
    (bulkRequest change ids).method.isMutating = true := by
  cases change <;> rfl

theorem perform_eq (q : Query) (change : Option LabelChange) {ids : List String} (hids : ids ≠ []) :
    (Session.bulkOf (σ := Client ω) q change).perform ids =
      Session.onOutside (Client.inPieces ids (bulkRequest change)) := by
  obtain ⟨id, ids, rfl⟩ := List.exists_cons_of_ne_nil hids
  cases change <;> rfl

/-- What performing an action on some messages leaves of a console: pieces of them were sent, all of
them delivered or not, and nothing was printed. -/
def Delivers (c : Console (Mailbox (Taped ω))) (change : Option LabelChange) (ids : List String)
    (isDelivered : Bool) (d : Console (Mailbox (Taped ω))) : Prop :=
  d.errors = c.errors ∧ ∃ tries,
    Client.Sent (bulkRequest change) (Runs.chunks Client.maxIds ids) tries ∧
    tries.all Tries.isDelivered = isDelivered ∧
    changes d = changes c ++ tries.flatMap Tries.exchanges

theorem perform_ends (q : Query) (change : Option LabelChange) {ids : List String} (hids : ids ≠ [])
    (c : Console (Mailbox (Taped ω))) :
    Call.Ends ((besideConsole (Session.bulkOf q change)).perform ids) c
      (fun _ => Delivers c change ids true) fun _ => Delivers c change ids false := by
  have hrun : ((besideConsole (Session.bulkOf q change)).perform ids).run c =
      let (answer, outside) := (Client.inPieces ids (bulkRequest change)).run c.world.outside
      (answer, { c with world := { c.world with outside } }) := by
    simp only [besideConsole]
    rw [perform_eq q change hids]
    rfl
  have hdelivers : ∀ isDelivered outside,
      Client.Sends c.world.outside (bulkRequest change) (Runs.chunks Client.maxIds ids) isDelivered
        outside →
      Delivers c change ids isDelivered { c with world := { c.world with outside } } := by
    rintro isDelivered outside ⟨tries, hsent, hall, htape⟩
    refine ⟨rfl, tries, hsent, hall, ?_⟩
    change outside.wire.exchanges.filter _ = _
    rw [htape, List.filter_append, hsent.changes (bulkRequest_mutating change)]
    rfl
  have hpieces := Client.pieces_ends (bulkRequest change) (Runs.chunks Client.maxIds ids)
    c.world.outside
  rw [Call.Ends] at hpieces ⊢
  rw [hrun, Client.inPieces]
  split at hpieces
  case h_1 outside hends =>
    rw [hends]
    exact hdelivers true outside hpieces
  case h_2 failure outside hends =>
    rw [hends]
    exact hdelivers false outside hpieces

omit [Wire ω] [Clock ω] in
/-- Running the scope of an action: the messages are listed and shown, and if the action is armed it
is performed on them. -/
theorem scope_run {s : Surroundings} (hpiped : s.typed = none) (name : BulkName)
    (isCommitted : Bool) (query : Value) (action : BulkAction (Mailbox ω))
    {c : Console (Mailbox ω)} {ids : List String} {world : Mailbox ω}
    (hlist : action.listing.run c.world = (.ok ids, world)) : ∃ output,
    (Scoped.within (Scoped.run (besideConsole action) (preview s name isCommitted query))).run c =
      if isCommitted && !ids.isEmpty then
        let (answer, d) := ((besideConsole action).perform ids).run { c with world, output }
        (answer.map fun _ => ids.length, d)
      else (.ok 0, { c with world, output, errors := remarked isCommitted ids c.errors }) := by
  have hbeside : (besideConsole action).listing.run c = (.ok ids, { c with world }) := by
    change (Console.onWorld action.listing).run c = _
    rw [Console.run_onWorld, hlist]
  obtain ⟨output, hpreview⟩ := preview_run hpiped name isCommitted query ids { c with world }
  refine ⟨output, ?_⟩
  rw [Scoped.within_run, hbeside]
  simp only [hpreview, Scoped.exit_run]
  -- The preview arms the action or remarks on it, never both.
  by_cases harmed : (isCommitted && !ids.isEmpty) = true
  · have hquiet : remarked isCommitted ids c.errors = c.errors := by
      simp_all [remarked]
    simp only [harmed, hquiet, if_true]
    rfl
  · simp only [harmed]
    rfl

/-! ### The command -/

/-- An outcome of an action on some messages: pieces of them were sent with one request each, in
order, and the number of messages was reported if all pieces were delivered. Otherwise the command
complained. -/
structure Outcome.Performs (o : Outcome (Taped ω)) (name : BulkName) (ids : List String)
    (change : Option LabelChange) (pieces : List (List String)) (tries : List Tries) : Prop where
  deletes : change = none ↔ name = .delete
  whole : pieces.flatten = ids
  bounded : ∀ piece ∈ pieces, piece ≠ [] ∧ piece.length ≤ 1000
  sent : Client.Sent (bulkRequest change) pieces tries
  changes : o.wire.changes = tries.flatMap Tries.exchanges
  errors : if tries.all Tries.isDelivered then o.errors = successLine name ids.length
    else Complains o.errors
  reports : Reports o.errors ↔ tries.all Tries.isDelivered = true

omit [Wire ω] [Clock ω] in
/-- What was sent for pieces of some messages, and whether it was reported, as an outcome. -/
theorem performs_of_sent {o : Outcome (Taped ω)} {name : BulkName} {ids : List String}
    {change : Option LabelChange} {tries : List Tries} (hdeletes : change = none ↔ name = .delete)
    (hsent : Client.Sent (bulkRequest change) (Runs.chunks Client.maxIds ids) tries)
    (hchanges : o.wire.changes = tries.flatMap Tries.exchanges)
    (herrors : if tries.all Tries.isDelivered then o.errors = successLine name ids.length
      else Complains o.errors) :
    o.Performs name ids change (Runs.chunks Client.maxIds ids) tries := by
  refine ⟨hdeletes, Runs.flatten_chunks _ _, fun piece => Runs.mem_chunks (by decide), hsent,
    hchanges, herrors, ?_⟩
  split at herrors
  case isTrue hall => simp [herrors, hall, reports_successLine]
  case isFalse hfailed => simp [not_reports_complaint herrors, hfailed]

section

variable {s : Surroundings} {a : Arguments} {name : BulkName} {q : Query}
  {action : BulkAction (Mailbox (Taped ω))} {query : Value} {c : Console (Mailbox (Taped ω))}

omit [Wire ω] [Clock ω] in
theorem carryOut_run : (carryOut s a name (q, action, query)).run c =
    match (Scoped.within (Scoped.run (besideConsole action)
        (preview s name (a.isGiven "commit") query))).run c with
    | (.ok affected, d) => (.ok (),
      if 0 < affected then { d with errors := d.errors ++ successLine name affected } else d)
    | (.error failure, d) => (Action.fail failure : Command (Taped ω) Unit).run d := by
  simp only [carryOut, Action.run_bind, Action.run_ofCall]
  rcases (Scoped.within _).run c with ⟨failure | affected, d⟩
  · exact (Action.run_bind ..).symm.trans (Action.fail_bind failure _ d)
  · rcases affected with _ | affected <;> rfl

variable (hchanges : changes c = []) (herrors : c.errors = "")
include hchanges herrors

theorem carryOut_unlisted (hsuits : Suits q name action) {failure : Failure}
    {world : Mailbox (Taped ω)}
    (hlist : (Session.messageIds q).run c.world = (.error failure, world)) (help : String) :
    (finish help ((carryOut s a name (q, action, query)).run c)).Unchanging := by
  have hleaves := Session.leaves_messageIds q c.world
  have hbeside : (besideConsole action).listing.run c = (.error failure, { c with world }) := by
    change (Console.onWorld action.listing).run c = _
    rw [Console.run_onWorld, hsuits.listing, hlist]
  rw [carryOut_run, Scoped.within_run, hbeside]
  rw [hlist] at hleaves
  obtain ⟨hnone, hcomplains⟩ := finish_fail failure help (c := { c with world }) herrors
  exact Outcome.unchanging (hnone.trans (hleaves.trans hchanges)) (.complaint hcomplains)

theorem carryOut_idle (hpiped : s.typed = none) (hsuits : Suits q name action) {ids : List String}
    {world : Mailbox (Taped ω)} (hlist : (Session.messageIds q).run c.world = (.ok ids, world))
    (hidle : (a.isGiven "commit" && !ids.isEmpty) = false) (help : String) :
    (finish help ((carryOut s a name (q, action, query)).run c)).Unchanging := by
  have hleaves := Session.leaves_messageIds q c.world
  rw [hlist] at hleaves
  obtain ⟨output, hscope⟩ := scope_run hpiped name (a.isGiven "commit") query action
    (hsuits.listing ▸ hlist)
  rw [hidle] at hscope
  rw [carryOut_run, hscope]
  refine Outcome.unchanging (hleaves.trans hchanges) ?_
  change Unreported (remarked (a.isGiven "commit") ids c.errors)
  rw [remarked, herrors, String.empty_append]
  split
  · exact .nothing
  · exact .dryRun

theorem carryOut_performs (hpiped : s.typed = none) (hsuits : Suits q name action)
    {ids : List String} {world : Mailbox (Taped ω)}
    (hlist : (Session.messageIds q).run c.world = (.ok ids, world)) (hids : ids ≠ [])
    (hcommitted : a.isGiven "commit" = true) (help : String) : ∃ change pieces tries,
    (finish help ((carryOut s a name (q, action, query)).run c)).Performs name ids change pieces
      tries := by
  have hleaves := Session.leaves_messageIds q c.world
  rw [hlist] at hleaves
  obtain ⟨output, hscope⟩ := scope_run hpiped name (a.isGiven "commit") query action
    (hsuits.listing ▸ hlist)
  rw [hcommitted] at hscope
  obtain ⟨change, rfl, hdeletes⟩ := hsuits
  have harmed : (true && !ids.isEmpty) = true := by simpa using hids
  rw [harmed, if_pos rfl] at hscope
  have hends := perform_ends q change hids { c with world, output }
  rw [carryOut_run, hcommitted, hscope]
  -- Nothing was changed or printed before, so all there is in the end comes of performing.
  have hstart : changes { c with world, output } = [] := hleaves.trans hchanges
  have hpos : 0 < ids.length := List.length_pos_of_ne_nil hids
  rw [Call.Ends] at hends
  split at hends
  case h_1 d hrun =>
    obtain ⟨hprinted, tries, hsent, hdelivered, htape⟩ := hends
    refine ⟨change, _, tries, performs_of_sent hdeletes hsent ?_ ?_⟩
    · rw [hrun, finish_wire]
      dsimp only [Except.map]
      rw [if_pos hpos]
      exact htape.trans (by rw [hstart, List.nil_append])
    · rw [hrun, hdelivered, if_pos rfl]
      dsimp only [Except.map]
      rw [if_pos hpos]
      change d.errors ++ _ = _
      rw [hprinted.trans herrors, String.empty_append]
  case h_2 failure d hrun =>
    obtain ⟨hprinted, tries, hsent, hfailed, htape⟩ := hends
    obtain ⟨hsame, hcomplains⟩ := finish_fail failure help (hprinted.trans herrors)
    refine ⟨change, _, tries, performs_of_sent hdeletes hsent ?_ ?_⟩
    · rw [hrun]
      exact hsame.trans (by rw [htape, hstart, List.nil_append])
    · rw [hrun, hfailed]
      exact hcomplains

end

/-- A call that does not suit or names no action. -/
theorem run_unnamed (s : Surroundings) (wire : ω) {arguments : List String}
    (h : ∀ a, Arguments.readAll bulkUsage arguments = .ok a →
      BulkName.ofText? (a.operand 0) = none) :
    (run s (⟨wire, []⟩ : Taped ω) ("bulk" :: arguments)).Unchanging := by
  have hquiet : ∀ {x : Command (Taped ω) Unit}, Quiet x (fun _ => True) →
      (finish "mailquery bulk" (x.run (startConsole s ⟨wire, []⟩))).Unchanging :=
    fun hx => hx.unchanging _ rfl rfl
  rw [run_eq, commandOf_bulk]
  cases hread : Arguments.readAll bulkUsage arguments with
  | error reason => exact hquiet (.fail _)
  | ok a =>
    simp only [bulk, h a hread]
    exact hquiet (.abort _)

/-- A call that names an action. -/
theorem run_named {s : Surroundings} (hpiped : s.typed = none) (wire : ω)
    {arguments : List String} {a : Arguments} {name : BulkName}
    (hread : Arguments.readAll bulkUsage arguments = .ok a)
    (hname : BulkName.ofText? (a.operand 0) = some name) :
    let o := run s (⟨wire, []⟩ : Taped ω) ("bulk" :: arguments)
    let ids := captured s a name (⟨wire, []⟩ : Taped ω)
    if a.isGiven "commit" && !ids.isEmpty then
      ∃ change pieces tries, o.Performs name ids change pieces tries
    else o.Unchanging := by
  intro o ids
  have ho : o = finish "mailquery bulk"
      ((prepare s a name >>= carryOut s a name).run (startConsole s ⟨wire, []⟩)) := by
    rw [← bulk_eq hname]
    change run s _ _ = _
    rw [run_eq, commandOf_bulk, hread]
  have hids : ids = captured s a name (⟨wire, []⟩ : Taped ω) := rfl
  rw [captured, Action.run_bind] at hids
  rw [Action.run_bind] at ho
  have hidle : ids = [] → (a.isGiven "commit" && !ids.isEmpty) ≠ true := by
    rintro hnone
    simp [hnone]
  have hprepare := quiet_prepare s a name (startConsole s (⟨wire, []⟩ : Taped ω))
  rcases hrun : (prepare s a name).run (startConsole s (⟨wire, []⟩ : Taped ω)) with
    ⟨halt | ⟨q, action, query⟩, c⟩ <;> rw [hrun] at hprepare ho hids
  · -- The command ends before anything is listed.
    have hstopped : Quiet (prepare s a name >>= fun _ => pure () : Command (Taped ω) Unit)
      fun _ => True := (quiet_prepare s a name).bind fun _ _ => .pure trivial
    have hend := hstopped.unchanging "mailquery bulk" (c := startConsole s ⟨wire, []⟩) rfl rfl
    rw [Action.run_bind, hrun] at hend
    rw [if_neg (hidle hids), ho]
    exact hend
  · obtain ⟨hchanges, herrors, hsuits⟩ := hprepare
    dsimp only at ho hids
    rw [Action.onWorld, Action.run_ofCall, Console.run_onWorld] at hids
    rcases hlist : (Session.messageIds q).run c.world with ⟨failure | listed, world⟩ <;>
      rw [hlist] at hids
    · dsimp only at hids
      rw [Action.toOption_fail] at hids
      rw [if_neg (hidle hids), ho]
      exact carryOut_unlisted hchanges herrors hsuits hlist _
    · obtain rfl : ids = listed := hids
      rw [ho]
      split
      case isTrue harmed =>
        obtain ⟨hcommitted, hany⟩ : a.isGiven "commit" = true ∧ ids ≠ [] := by simpa using harmed
        exact carryOut_performs hchanges herrors hpiped hsuits hlist hany hcommitted _
      case isFalse hidle =>
        exact carryOut_idle hchanges herrors hpiped hsuits hlist (Bool.eq_false_iff.mpr hidle) _

/-- The arguments of a call and the action that it names, if the call suits and commits to it. -/
def committed? (arguments : List String) : Option (Arguments × BulkName) :=
  match Arguments.readAll bulkUsage arguments with
  | .ok a => if a.isGiven "commit" then (BulkName.ofText? (a.operand 0)).map (a, ·) else none
  | .error _ => none

theorem committed?_eq_some {arguments : List String} {a : Arguments} {name : BulkName} :
    committed? arguments = some (a, name) ↔ Arguments.readAll bulkUsage arguments = .ok a ∧
      a.isGiven "commit" = true ∧ BulkName.ofText? (a.operand 0) = some name := by
  rw [committed?]
  cases Arguments.readAll bulkUsage arguments with
  | error reason => simp
  | ok b =>
    dsimp only
    split
    case isTrue hgiven =>
      simp only [Option.map_eq_some_iff, Prod.mk.injEq, Except.ok.injEq]
      constructor
      · rintro ⟨name, hname, rfl, rfl⟩
        exact ⟨rfl, hgiven, hname⟩
      · rintro ⟨rfl, -, hname⟩
        exact ⟨name, hname, rfl, rfl⟩
    case isFalse hdry =>
      refine ⟨nofun, ?_⟩
      rintro ⟨hread, hgiven, -⟩
      exact absurd (Except.ok.inj hread ▸ hgiven) hdry

/-- With nobody at a terminal, the command changes nothing unless it is told to commit and messages
are listed. It then sends these messages in their order, in pieces of at most a thousand and with
one change for all of them, and it goes on until a piece is not delivered. It reports their number
if all pieces were delivered, and complains otherwise. -/
theorem run_bulk (s : Surroundings) (hpiped : s.typed = none) (wire : ω)
    (arguments : List String) :
    let o := run s (⟨wire, []⟩ : Taped ω) ("bulk" :: arguments)
    (committed? arguments = none → o.Unchanging) ∧
      ∀ a name, committed? arguments = some (a, name) →
        let ids := captured s a name (⟨wire, []⟩ : Taped ω)
        (ids = [] → o.Unchanging) ∧
          (ids ≠ [] → ∃ change pieces tries, o.Performs name ids change pieces tries) := by
  intro o
  refine ⟨fun hnone => ?_, fun a name hcommitted => ?_⟩
  · by_cases hnames : ∃ a name, Arguments.readAll bulkUsage arguments = .ok a ∧
        BulkName.ofText? (a.operand 0) = some name
    · obtain ⟨a, name, hread, hname⟩ := hnames
      have hdry : a.isGiven "commit" ≠ true := fun hcommit =>
        nomatch hnone.symm.trans (committed?_eq_some.mpr ⟨hread, hcommit, hname⟩)
      have hnamed := run_named hpiped wire hread hname
      rwa [if_neg (by simp [hdry])] at hnamed
    · refine run_unnamed s wire fun a hread => ?_
      exact Option.eq_none_iff_forall_ne_some.mpr fun name hname => hnames ⟨a, name, hread, hname⟩
  · obtain ⟨hread, hcommit, hname⟩ := committed?_eq_some.mp hcommitted
    have hnamed := run_named hpiped wire hread hname
    refine ⟨fun hnone => ?_, fun hany => ?_⟩
    · rwa [if_neg (by simp [hnone])] at hnamed
    · rwa [if_pos (by simpa [hcommit] using hany)] at hnamed

/-- Two messages are archived; the first request meets a shortage of quota and is made again. -/
theorem run_bulk_archiving :
    let s : Surroundings := {
      zone := .universal
      home := ""
      environment := .ofList [("MAILQUERY_CLIENT_ID", "client")]
      files _ :=
        some "\x7b\"email\":\"me@example.com\",\"tokens\":\x7b\"access_token\":\"a\"\x7d\x7d" }
    let wire : Script := {
      replies := [.ok (.obj []), .ok (.obj []),
        .ok (.obj [("messages", .arr [.obj [("id", .str "a")], .obj [("id", .str "b")]])]),
        .error (.error "Error" "slow down" [("code", .ofNat 429)]), .ok (.obj [])] }
    let o := run s (⟨wire, []⟩ : Taped Script) ["bulk", "archive", "--all", "--commit"]
    let request := Request.modifyMessages ["a", "b"] { remove := some ["INBOX"] }
    (∃ change pieces tries, o.Performs .archive ["a", "b"] change pieces tries) ∧
      o.wire.changes.map Prod.fst = [request, request] ∧
      o.errors = successLine .archive 2 := by
  intro s wire o request
  have hrun := run_bulk s rfl wire ["archive", "--all", "--commit"]
  have hcommitted : committed? ["archive", "--all", "--commit"] =
      some (⟨["archive"], [("all", ""), ("commit", "")]⟩, .archive) := by decide +kernel
  have hcaptured : captured s ⟨["archive"], [("all", ""), ("commit", "")]⟩ .archive
      (⟨wire, []⟩ : Taped Script) = ["a", "b"] := by decide +kernel
  have hperforms := (hrun.2 _ _ hcommitted).2
  rw [hcaptured] at hperforms
  exact ⟨hperforms (by decide), by decide +kernel, by decide +kernel⟩

end Mailroom.Program
