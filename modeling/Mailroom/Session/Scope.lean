import Mailroom.Session.Basic

/-! Scopes: an action on many ids that is armed before it happens. Entering a scope lists the ids,
committing arms the action, leaving performs it if it is armed. Running a scope enters it, hands it
to a callback and leaves it however the callback ends. -/

namespace Mailroom

/-- The ids that were listed last, and whether the action is armed. -/
structure Scope where
  captured : Option (List String) := none
  armed : Bool := false
deriving DecidableEq, Repr, Inhabited

def Scope.ids (s : Scope) : List String := s.captured.getD []

/-- How ids are listed, and what is done with them. -/
structure BulkAction (σ : Type) where
  listing : Call σ (List String)
  perform : List String → Call σ Unit

/-- A scope in the outside world. -/
structure Scoped (σ : Type) where
  scope : Scope
  outside : σ

namespace Scoped

variable {σ α : Type}

def onOutside (x : Call σ α) : Call (Scoped σ) α := ExceptT.mk fun s =>
  let (a, outside) := x.run s.outside
  (a, { s with outside })

def modifyScope (f : Scope → Scope) : Call (Scoped σ) Unit :=
  modify fun s => { s with scope := f s.scope }

/-- List the ids; the action is not armed any more. A listing that fails changes nothing. -/
def enter (a : BulkAction σ) : Call (Scoped σ) Unit := do
  let ids ← onOutside a.listing
  modifyScope fun _ => ⟨some ids, false⟩

/-- Arm the action. -/
def commit : Call (Scoped σ) Unit := modifyScope fun s => { s with armed := true }

/-- Perform the action if it is armed; it is not armed any more, even if it fails. The answer is
the number of ids. -/
def exit (a : BulkAction σ) : Call (Scoped σ) Nat := do
  let scope := (← get).scope
  if scope.armed then
    modifyScope fun s => { s with armed := false }
    onOutside (a.perform scope.ids)
    return scope.ids.length
  else return 0

/-- List the ids and perform the action right away. -/
def execute (a : BulkAction σ) : Call (Scoped σ) Nat := do
  let ids ← onOutside a.listing
  modifyScope fun s => { s with captured := some ids }
  onOutside (a.perform ids)
  return ids.length

/-- The failure of a scope that was left after its callback had failed. -/
def bothFailures (callback leaving : Failure) : Failure :=
  match leaving with
  | .escaped fault => .escaped fault
  | other => .afterCallback [callback, other]

/-- Enter, hand over to the callback, and leave. What the callback armed is performed even if it
fails; its failure then goes on. -/
def run (a : BulkAction σ) (callback : Call (Scoped σ) Unit) : Call (Scoped σ) Nat := do
  enter a
  match ← Call.attempt callback with
  | .ok _ => exit a
  | .error failure =>
    match ← Call.attempt (exit a) with
    | .ok _ => throw failure
    | .error other => throw (bothFailures failure other)

/-- A computation within a new scope, as one without it. -/
def within (x : Call (Scoped σ) α) : Call σ α := ExceptT.mk fun outside =>
  let (a, s) := x.run ⟨{}, outside⟩
  (a, s.outside)

end Scoped

end Mailroom
