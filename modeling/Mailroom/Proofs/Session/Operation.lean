import Mailroom.Proofs.Session.Scope
import Mailroom.Session.Bulk

/-! What callers may do with a mailbox: the operations of a session as one type, so that runs of
them can be followed. Running a scope with a callback is entering it, what the callback does and
leaving it, each an operation of its own. -/

namespace Mailroom

namespace Scoped

variable {σ α : Type}

/-- A computation within a scope that is there already, as one of the outside world. -/
def resume (scope : Scope) (x : Call (Scoped σ) α) : Call σ α := ExceptT.mk fun outside =>
  let (a, s) := x.run ⟨scope, outside⟩
  (a, s.outside)

variable (scope : Scope) (a : BulkAction σ) (outside : σ)

theorem resume_enter : ((resume scope (enter a)).run outside).2 = (a.listing.run outside).2 :=
  enter_outside a ⟨scope, outside⟩

theorem resume_exit : ((resume scope (exit a)).run outside).2 =
    if scope.armed then ((a.perform scope.ids).run outside).2 else outside :=
  exit_outside a ⟨scope, outside⟩

theorem resume_execute : ((resume scope (execute a)).run outside).2 =
    ((a.listing >>= a.perform).run outside).2 := by
  have h := execute_outside a ⟨scope, outside⟩
  rw [Call.run_bind]
  exact h.trans (by rcases a.listing.run outside with ⟨failure | ids, after⟩ <;> rfl)

end Scoped

namespace Session

open Label (EntityRef NodeRef)
open Remote (LabelBody LabelChange LabelOptions LabelRecord ListQuery MailService)

variable {σ : Type} [MailService σ]

/-- What is done with a scope. -/
inductive ScopeUse
  | enter
  | exit
  | execute

/-- The action on the messages of a query: a change of their labels, or their deletion. -/
def bulkOf (q : Query) : Option LabelChange → BulkAction (Session σ)
  | some c => bulkChange q c
  | none => bulkDelete q

/-- A use of a scope, as an operation of the session that the scope lies in. -/
def bulk (scope : Scope) (q : Query) (change : Option LabelChange) : ScopeUse → Op σ Unit
  | .enter => Scoped.resume scope (Scoped.enter (bulkOf q change))
  | .exit => discard (Scoped.resume scope (Scoped.exit (bulkOf q change)))
  | .execute => discard (Scoped.resume scope (Scoped.execute (bulkOf q change)))

/-- What callers may do with a mailbox. -/
inductive Operation
  | refresh
  | entity (r : NodeRef)
  | invalidate (r : NodeRef)
  | reload (e : EntityRef)
  | labelByName (name : String)
  | createLabel (name : String) (options : LabelOptions)
  | createChild (e : EntityRef) (name : String) (options : LabelOptions)
  | updateLabel (e : EntityRef) (name : Option String) (options : LabelOptions)
  | deleteLabel (e : EntityRef) (recursive : Bool)
  | parent (e : EntityRef)
  | children (e : EntityRef)
  | contains (e : EntityRef) (thing : Thing)
  | messageOf (r : Message.Resource)
  | message (id : String)
  | messageContains (m : Message) (thing : Thing)
  | addLabels (m : Message) (labels : Thing)
  | removeLabels (m : Message) (labels : Thing)
  | changeCategory (m : Message) (category : Thing)
  | mark (m : Message) (l : Label.System) (isSet : Bool)
  | archive (m : Message)
  | trash (m : Message)
  | untrash (m : Message)
  | deleteMessage (m : Message)
  | messageIds (q : Query)
  | fetch (ids : List String)
  | execute (q : Query)
  | bulk (scope : Scope) (q : Query) (change : Option LabelChange) (use : ScopeUse)

namespace Operation

variable [Clock σ]

/-- An operation at work; what it answers is left out. -/
def op : Operation → Op σ Unit
  | refresh => discard Session.refresh
  | entity r => discard (Session.entity r)
  | invalidate r => Session.invalidate r
  | reload e => discard (Session.reload e)
  | labelByName name => discard (Session.labelByName name)
  | createLabel name options => discard (Session.createLabel name options)
  | createChild e name options => discard (Session.createChild e name options)
  | updateLabel e name options => discard (Session.updateLabel e name options)
  | deleteLabel e recursive => Session.deleteLabel e recursive
  | parent e => discard (Session.parent e)
  | children e => discard (Session.children e)
  | contains e thing => discard (Session.contains e thing)
  | messageOf r => discard (Session.messageOf r)
  | message id => discard (Session.message id)
  | messageContains m thing => discard (Session.messageContains m thing)
  | addLabels m labels => discard (Session.addLabels m labels)
  | removeLabels m labels => discard (Session.removeLabels m labels)
  | changeCategory m category => discard (Session.changeCategory m category)
  | mark m l isSet => discard (Session.mark m l isSet)
  | archive m => discard (Session.archive m)
  | trash m => discard (Session.trash m)
  | untrash m => discard (Session.untrash m)
  | deleteMessage m => Session.deleteMessage m
  | messageIds q => discard (Session.messageIds q)
  | fetch ids => discard (Session.fetch ids)
  | execute q => discard (Session.execute q)
  | bulk scope q change use => Session.bulk scope q change use

/-- The session after an operation, whether it failed or not. -/
def after (o : Operation) (s : Session σ) : Session σ := (o.op.run s).2

/-- How many of the listings that an operation asks for are for finding labels and not for a
refresh: a recursive deletion asks for one, before its refresh. -/
def searches : Operation → Nat
  | deleteLabel _ true => 1
  | _ => 0

end Operation

/-! ### What operations are made of -/

/-- The requests that operations make besides listing labels and loading them. -/
inductive Asks : {α : Type} → Call σ α → Prop
  | createLabel (body : LabelBody) : Asks (MailService.createLabel body)
  | updateLabel (id : String) (body : LabelBody) : Asks (MailService.updateLabel id body)
  | deleteLabel (id : String) : Asks (MailService.deleteLabel id)
  | listMessages (q : ListQuery) : Asks (MailService.listMessages q)
  | getMessage (id : String) : Asks (MailService.getMessage id)
  | getMessages (ids : List String) : Asks (MailService.getMessages ids)
  | modifyMessage (id : String) (c : LabelChange) : Asks (MailService.modifyMessage id c)
  | trashMessage (id : String) : Asks (MailService.trashMessage id)
  | untrashMessage (id : String) : Asks (MailService.untrashMessage id)
  | deleteMessage (id : String) : Asks (MailService.deleteMessage id)
  | deleteMessages (ids : List String) : Asks (MailService.deleteMessages ids)
  | modifyMessages (ids : List String) (c : LabelChange) : Asks (MailService.modifyMessages ids c)

/-- A property of what computations leave of a session that goes on to what is composed of them. -/
structure Composes (P : ∀ {α : Type}, Op σ α → Prop) : Prop where
  state : ∀ {α β : Type} {x : Op σ α} {y : Op σ β},
    (∀ s, (x.run s).2 = (y.run s).2) → P y → P x
  pure : ∀ {α : Type} (a : α), P (pure a : Op σ α)
  get : P (get : Op σ (Session σ))
  bind : ∀ {α β : Type} {x : Op σ α} {f : α → Op σ β}, P x → (∀ a, P (f a)) → P (x >>= f)

namespace Composes

variable {P : ∀ {α : Type}, Op σ α → Prop} (h : Composes @P) {α β : Type}
include h

section

omit [MailService σ]

theorem throw (failure : Failure) : P (throw failure : Op σ α) :=
  h.state (y := Pure.pure ()) (fun _ => rfl) (h.pure ())

theorem ofExcept (x : Except Failure α) : P (ofExcept x : Op σ α) := by
  cases x with
  | ok a => exact h.pure a
  | error failure => exact h.throw failure

theorem getThen {f : Session σ → Op σ β} (hf : ∀ s, P (f s)) : P (MonadState.get >>= f) :=
  h.bind h.get hf

theorem discard {x : Op σ α} (hx : P x) : P (Functor.discard x) := h.bind hx fun _ => h.pure _

theorem mapM {f : α → Op σ β} (hf : ∀ a, P (f a)) (items : List α) : P (items.mapM f) := by
  induction items with
  | nil => exact h.pure _
  | cons a items ih =>
    rw [List.mapM_cons]
    exact h.bind (hf a) fun _ => h.bind ih fun _ => h.pure _

theorem forM {f : α → Op σ PUnit} (hf : ∀ a, P (f a)) (items : List α) : P (items.forM f) := by
  induction items with
  | nil => exact h.pure _
  | cons a items ih =>
    rw [List.forM]
    exact h.bind (hf a) fun _ => ih

theorem nodeById (id : String) : P (nodeById (σ := σ) id) := h.getThen fun _ => h.ofExcept _

theorem nodeByName (name : String) : P (nodeByName (σ := σ) name) :=
  h.getThen fun _ => h.ofExcept _

end

section Listing

variable (hlist : ∀ query, P (onOutside (MailService.listMessages (σ := σ) query)))
include hlist

theorem readPages (query : ListQuery) (limit : Option Rat) (budget : Nat) :
    ∀ ids token, P (readPages (σ := σ) query limit budget ids token) := by
  induction budget with
  | zero =>
    intro ids token
    rw [Session.readPages]
    split
    · exact h.pure _
    · exact h.throw _
  | succ budget ih =>
    intro ids token
    rw [Session.readPages]
    split
    · exact h.pure _
    · exact h.bind (hlist _) fun page => ih _ _

theorem messageIds (q : Query) : P (messageIds (σ := σ) q) := by
  refine h.getThen fun s => h.bind (h.ofExcept _) fun search => h.bind (hlist _) fun page =>
    h.bind (h.readPages hlist _ _ _ _ _) fun ids => ?_
  cases q.limit with
  | none => exact h.pure _
  | some n => exact h.pure _

end Listing

section LookingUp

variable (hrefresh : P (Session.refresh (σ := σ))) (hentity : ∀ r, P (Session.entity (σ := σ) r))
include hrefresh hentity

theorem labelsOf (ids : List String) : ∀ asked, P (labelsOf (σ := σ) asked ids) := by
  induction ids with
  | nil => exact fun _ => h.pure _
  | cons id rest ih =>
    intro asked
    have hgo : ∀ known : Bool, P (do
        let e ← Session.entity (σ := σ) (← Session.nodeById id)
        let refs ← Session.labelsOf (asked || !known) rest
        if (← MonadState.get).entityKind e = .category then return (refs.1, e :: refs.2)
        else return (e :: refs.1, refs.2)) := fun known =>
      h.bind (h.nodeById id) fun r => h.bind (hentity r) fun e => h.bind (ih _) fun refs =>
        h.getThen fun s => iteInduction (fun _ => h.pure _) fun _ => h.pure _
    exact h.getThen fun s => iteInduction (fun _ => h.bind hrefresh fun _ => hgo _)
      fun _ => hgo _

theorem messageOf (r : Message.Resource) : P (messageOf (σ := σ) r) := by
  refine h.bind (h.labelsOf hrefresh hentity _ false) fun refs => ?_
  obtain ⟨labels, categories⟩ := refs
  rcases categories with _ | ⟨first, _ | ⟨second, categories⟩⟩
  · exact h.pure _
  · exact h.pure _
  · exact h.getThen fun _ => h.throw _

end LookingUp

end Composes

/-- A property of what computations leave of a session that goes on from the parts of operations to
what is made of them. -/
structure Parts [Clock σ] (P : ∀ {α : Type}, Op σ α → Prop) : Prop extends Composes @P where
  request : ∀ {α : Type} {x : Call σ α}, Asks x → P (onOutside x)
  refresh : P (refresh (σ := σ))
  entity : ∀ r, P (entity (σ := σ) r)
  invalidate : ∀ r, P (invalidate (σ := σ) r)
  reload : ∀ e, P (reload (σ := σ) e)
  now : P (onClock (Clock.now (σ := σ)))
  sleep : ∀ delay, P (onClock (Clock.sleep (σ := σ) delay))

namespace Parts

variable [Clock σ] {P : ∀ {α : Type}, Op σ α → Prop} (h : Parts @P)
include h

/-! ### Labels -/

theorem labelByName (name : String) : P (labelByName (σ := σ) name) :=
  h.bind (h.nodeByName name) h.entity

theorem createLabel (name : String) (options : LabelOptions) :
    P (createLabel (σ := σ) name options) := by
  refine h.bind (h.request (.createLabel _)) fun id => h.bind h.refresh fun _ =>
    h.bind (h.nodeById id) fun r => h.bind (h.entity r) fun e => h.getThen fun s => ?_
  exact iteInduction (fun _ => h.pure e) fun _ => h.throw _

theorem updateLabel (e : EntityRef) (name : Option String) (options : LabelOptions) :
    P (updateLabel (σ := σ) e name options) := by
  refine iteInduction (fun _ => h.throw _) fun _ => h.getThen fun _ =>
    h.bind (h.request (.updateLabel _ _)) fun _ => ?_
  exact h.bind (h.reload e) fun _ => h.bind h.refresh fun _ => h.pure e

/-- What a deletion does after it has found the labels below. -/
theorem deleteBelow (e : EntityRef) (records : List LabelRecord) : P (do
    (below ((← MonadState.get).entityName e) records).forM fun r =>
      onOutside (MailService.deleteLabel (σ := σ) r.id)
    let _ ← Session.refresh) :=
  h.getThen fun _ => h.bind (h.forM (fun _ => h.request (.deleteLabel _)) _) fun _ =>
    h.bind h.refresh fun _ => h.pure _

theorem deleteLabel (e : EntityRef) (recursive : Bool)
    (hsearch : (Operation.deleteLabel e recursive).searches = 0 ∨
      P (onOutside (MailService.listLabels (σ := σ)))) :
    P (deleteLabel (σ := σ) e recursive) := by
  refine h.getThen fun s => h.bind (h.request (.deleteLabel _)) fun _ => ?_
  cases recursive with
  | false => exact h.bind h.refresh fun _ => h.pure _
  | true =>
    have hlist := hsearch.resolve_left (by simp [Operation.searches])
    exact h.bind hlist fun records => h.deleteBelow e records

theorem parent (e : EntityRef) : P (parent (σ := σ) e) := by
  refine h.getThen fun s => h.bind (h.nodeById _) fun r => h.getThen fun t => ?_
  cases (t.directory.node r).parent with
  | some above => exact h.bind (h.entity above) fun _ => h.pure _
  | none => exact h.pure _

theorem children (e : EntityRef) : P (children (σ := σ) e) :=
  h.getThen fun _ => h.bind (h.nodeById _) fun _ => h.getThen fun _ => h.mapM h.entity _

theorem contains (e : EntityRef) (thing : Thing) : P (contains (σ := σ) e thing) := by
  refine h.getThen fun s => ?_
  dsimp only
  split
  · exact h.pure _
  · exact h.throw _
  · exact h.pure _
  · split <;> exact h.pure _
  · exact h.throw _

/-! ### Messages -/

theorem messageOf (r : Message.Resource) : P (messageOf (σ := σ) r) :=
  h.toComposes.messageOf h.refresh h.entity r

theorem message (id : String) : P (message (σ := σ) id) :=
  h.bind (h.request (.getMessage id)) h.messageOf

theorem messageContains (m : Message) (thing : Thing) : P (messageContains (σ := σ) m thing) := by
  refine h.getThen fun s => ?_
  cases thing <;> first | exact h.pure _ | exact h.throw _

theorem change (m : Message) (c : LabelChange) : P (change (σ := σ) m c) :=
  h.bind (h.request (.modifyMessage _ c)) fun _ => h.message m.id

theorem addLabels (m : Message) (labels : Thing) : P (addLabels (σ := σ) m labels) :=
  h.getThen fun _ => h.bind (h.ofExcept _) fun _ => h.change m _

theorem removeLabels (m : Message) (labels : Thing) : P (removeLabels (σ := σ) m labels) :=
  h.getThen fun _ => h.bind (h.ofExcept _) fun _ => h.change m _

theorem changeCategory (m : Message) (category : Thing) :
    P (changeCategory (σ := σ) m category) :=
  h.getThen fun _ => iteInduction (fun _ => h.change m _) fun _ => h.throw _

theorem mark (m : Message) (l : Label.System) (isSet : Bool) : P (mark (σ := σ) m l isSet) :=
  iteInduction (fun _ => h.addLabels m _) fun _ => h.removeLabels m _

/-! ### Queries and bulk actions -/

theorem messageIds (q : Query) : P (messageIds (σ := σ) q) :=
  h.toComposes.messageIds (fun _ => h.request (.listMessages _)) q

theorem listing (q : Query) (change : Option LabelChange) :
    P (bulkOf (σ := σ) q change).listing := by
  cases change <;> exact h.messageIds q

theorem perform (q : Query) (change : Option LabelChange) (ids : List String) :
    P ((bulkOf (σ := σ) q change).perform ids) := by
  cases change with
  | none => exact iteInduction (fun _ => h.pure _) fun _ => h.request (.deleteMessages ids)
  | some c => exact iteInduction (fun _ => h.pure _) fun _ => h.request (.modifyMessages ids c)

theorem bulk (scope : Scope) (q : Query) (change : Option LabelChange) (use : ScopeUse) :
    P (bulk (σ := σ) scope q change use) := by
  cases use with
  | enter => exact h.state (Scoped.resume_enter scope _) (h.listing q change)
  | exit =>
    refine h.discard (h.state (y := if scope.armed then (bulkOf q change).perform scope.ids
      else Pure.pure ()) (fun s => ?_) (iteInduction (fun _ => ?_) fun _ => h.pure ()))
    · rw [Scoped.resume_exit]
      split <;> rfl
    · exact h.perform q change scope.ids
  | execute =>
    refine h.discard (h.state (Scoped.resume_execute scope _) ?_)
    exact h.bind (h.listing q change) fun ids => h.perform q change ids

theorem fetchBatch (ids : List String) : P (fetchBatch (σ := σ) ids) := by
  refine h.getThen fun s => h.bind h.now fun started => h.bind (h.request (.getMessages ids))
    fun rs => h.bind (h.mapM h.messageOf rs) fun messages => h.bind h.now fun ended => ?_
  exact iteInduction (fun _ => h.bind (h.sleep _) fun _ => h.pure _) fun _ => h.pure _

theorem fetch (ids : List String) : P (fetch (σ := σ) ids) := by
  refine h.getThen fun s => ?_
  split
  · exact h.bind (h.mapM h.fetchBatch _) fun _ => h.pure _
  · exact h.mapM h.message ids

theorem execute (q : Query) : P (execute (σ := σ) q) :=
  h.bind (h.messageIds q) fun ids => h.bind (h.fetch ids) fun _ => h.pure _

/-- What goes on from the parts goes on to every operation, a recursive deletion only if its listing
of what lies below is such a part. -/
theorem operation (o : Operation)
    (hsearch : o.searches = 0 ∨ P (onOutside (MailService.listLabels (σ := σ)))) : P o.op := by
  cases o with
  | refresh => exact h.discard h.refresh
  | entity r => exact h.discard (h.entity r)
  | invalidate r => exact h.invalidate r
  | reload e => exact h.discard (h.reload e)
  | labelByName name => exact h.discard (h.labelByName name)
  | createLabel name options => exact h.discard (h.createLabel name options)
  | createChild e name options => exact h.discard (h.getThen fun _ => h.createLabel _ options)
  | updateLabel e name options => exact h.discard (h.updateLabel e name options)
  | deleteLabel e recursive => exact h.deleteLabel e recursive hsearch
  | parent e => exact h.discard (h.parent e)
  | children e => exact h.discard (h.children e)
  | contains e thing => exact h.discard (h.contains e thing)
  | messageOf r => exact h.discard (h.messageOf r)
  | message id => exact h.discard (h.message id)
  | messageContains m thing => exact h.discard (h.messageContains m thing)
  | addLabels m labels => exact h.discard (h.addLabels m labels)
  | removeLabels m labels => exact h.discard (h.removeLabels m labels)
  | changeCategory m category => exact h.discard (h.changeCategory m category)
  | mark m l isSet => exact h.discard (h.mark m l isSet)
  | archive m => exact h.discard (h.removeLabels m _)
  | trash m => exact h.discard (h.bind (h.request (.trashMessage _)) fun _ => h.message m.id)
  | untrash m => exact h.discard (h.bind (h.request (.untrashMessage _)) fun _ => h.message m.id)
  | deleteMessage m => exact h.request (.deleteMessage m.id)
  | messageIds q => exact h.discard (h.messageIds q)
  | fetch ids => exact h.discard (h.fetch ids)
  | execute q => exact h.discard (h.execute q)
  | bulk scope q change use => exact h.bulk scope q change use

end Parts

end Session

end Mailroom
