import Mailroom.Proofs.Session.Basic
import Mailroom.Session.Scope
import Mathlib.Logic.Basic

/-! Scopes by their past. A scope keeps a flag and the ids that were listed last; a caller can just
as well go by what has happened: leaving performs the action exactly when the scope was committed
after it was last entered and after the action was last performed by leaving, and the ids are those
that were listed last. The two agree for every caller, whatever the listings and the action answer
and however callbacks are nested. -/

namespace Mailroom.Scoped

/-- What happened in a scope. A listing that failed is none of it, nor is leaving without performing
the action. -/
inductive Moment
  /-- The scope was entered; these ids were listed. -/
  | entered (ids : List String)
  | committed
  /-- Leaving performed the action on these ids, successfully or not. -/
  | performed (ids : List String)
  /-- The action was performed right away on these ids, successfully or not. -/
  | executed (ids : List String)
deriving DecidableEq, Repr

namespace Moment

/-- Whether a commit before the moment does not count any more. -/
def endsCommit : Moment → Bool
  | entered _ => true
  | committed => false
  | performed _ => true
  | executed _ => false

/-- The ids that were listed at the moment. -/
def listed? : Moment → Option (List String)
  | entered ids => some ids
  | committed => none
  | performed _ => none
  | executed ids => some ids

end Moment

/-- Whether a scope with a past, the last moment first, was committed after it was last entered and
after leaving last performed the action. -/
def Armed (past : List Moment) : Prop :=
  ∃ since before, past = since ++ .committed :: before ∧ ∀ m ∈ since, m.endsCommit = false

/-- The ids that were listed last, none if there was no listing. -/
def captured (past : List Moment) : List String := (past.findSome? Moment.listed?).getD []

theorem not_armed_nil : ¬Armed [] := by
  rintro ⟨since, before, h, -⟩
  simp at h

theorem armed_cons {m : Moment} {past : List Moment} :
    Armed (m :: past) ↔ m = .committed ∨ m.endsCommit = false ∧ Armed past := by
  constructor
  · rintro ⟨since, before, h, hsince⟩
    cases since with
    | nil => exact Or.inl (List.cons_eq_cons.mp h).1
    | cons first since =>
      obtain ⟨rfl, rfl⟩ := List.cons_eq_cons.mp h
      exact Or.inr ⟨hsince _ List.mem_cons_self, since, before, rfl,
        fun m hm => hsince m (List.mem_cons_of_mem _ hm)⟩
  · rintro (rfl | ⟨hm, since, before, rfl, hsince⟩)
    · exact ⟨[], past, rfl, by simp⟩
    · exact ⟨m :: since, before, rfl, by simpa [hm] using hsince⟩

instance decidableArmed : (past : List Moment) → Decidable (Armed past)
  | [] => isFalse not_armed_nil
  | _ :: past =>
    have := decidableArmed past
    decidable_of_iff _ armed_cons.symm

/-- How often leaving performed the action. -/
def performances (past : List Moment) : Nat :=
  past.countP fun m => m matches .performed _

/-- A past in which leaving performed the action only when the scope was armed, and on the ids that
were listed last. -/
def Lawful (past : List Moment) : Prop :=
  ∀ since ids before, past = since ++ .performed ids :: before →
    Armed before ∧ ids = captured before

theorem lawful_nil : Lawful [] := by
  intro since ids before h
  simp at h

theorem Lawful.cons {past : List Moment} (h : Lawful past) {m : Moment}
    (hm : ∀ ids, m = .performed ids → Armed past ∧ ids = captured past) : Lawful (m :: past) := by
  intro since ids before heq
  cases since with
  | nil =>
    obtain ⟨rfl, rfl⟩ := List.cons_eq_cons.mp heq
    exact hm ids rfl
  | cons first since =>
    obtain ⟨-, rfl⟩ := List.cons_eq_cons.mp heq
    exact h since ids before rfl

/-- Every performance on leaving uses up a commit of its own. -/
theorem Lawful.performances_le {past : List Moment} (h : Lawful past) :
    performances past + (if Armed past then 1 else 0) ≤ past.count .committed := by
  induction past with
  | nil => simp [performances, not_armed_nil]
  | cons m past ih =>
    have ih := ih fun since ids before heq => h (m :: since) ids before (heq ▸ rfl)
    cases m with
    | entered ids =>
      simp [performances, armed_cons, Moment.endsCommit] at ih ⊢
      omega
    | committed =>
      simp [performances, armed_cons] at ih ⊢
      split at ih <;> omega
    | performed ids =>
      obtain ⟨harmed, -⟩ := h [] ids past rfl
      simp [performances, armed_cons, Moment.endsCommit, harmed] at ih ⊢
      omega
    | executed ids => simpa [performances, armed_cons, Moment.endsCommit] using ih

/-- The outside world beside what happened in a scope. -/
structure Chronicle (σ : Type) where
  outside : σ
  past : List Moment

/-- A caller of one scope. It sees every answer and may look at the ids and at whether the action is
armed; what it does in between changes the outside world. It ends, or fails as a callback may. The
listing may be another one at each call, as the query may change. -/
inductive Caller (σ : Type)
  | done
  | fail (failure : Failure)
  | outside (change : σ → σ) (next : Caller σ)
  | look (next : List String → Bool → Caller σ)
  | enter (listing : Call σ (List String)) (next : Except Failure Unit → Caller σ)
  | commit (next : Caller σ)
  | exit (next : Except Failure Nat → Caller σ)
  | execute (listing : Call σ (List String)) (next : Except Failure Nat → Caller σ)
  | run (listing : Call σ (List String)) (callback : Caller σ)
    (next : Except Failure Nat → Caller σ)

variable {σ α β : Type}

/-- The answer of running a scope, by how its callback ended and by the answer of leaving it. -/
def outcome : Except Failure Unit → Except Failure Nat → Except Failure Nat
  | .ok _, left => left
  | .error failure, .ok _ => .error failure
  | .error failure, .error other => .error (bothFailures failure other)

namespace Chronicle

def onOutside (x : Call σ α) : Call (Chronicle σ) α := ExceptT.mk fun c =>
  let (a, outside) := x.run c.outside
  (a, { c with outside })

@[simp] theorem run_onOutside (x : Call σ α) (c : Chronicle σ) :
    (onOutside x).run c = ((x.run c.outside).1, { c with outside := (x.run c.outside).2 }) := rfl

def note (m : Moment) : Call (Chronicle σ) Unit := modify fun c => { c with past := m :: c.past }

def enter (listing : Call σ (List String)) : Call (Chronicle σ) Unit := do
  let ids ← onOutside listing
  note (.entered ids)

/-- Leaving performs the action if the past says so, on the ids that the past gives. -/
def exit (perform : List String → Call σ Unit) : Call (Chronicle σ) Nat := do
  let past := (← get).past
  if Armed past then
    note (.performed (captured past))
    onOutside (perform (captured past))
    return (captured past).length
  else return 0

def execute (perform : List String → Call σ Unit) (listing : Call σ (List String)) :
    Call (Chronicle σ) Nat := do
  let ids ← onOutside listing
  note (.executed ids)
  onOutside (perform ids)
  return ids.length

/-- Entering, the callback and leaving, one after the other; a listing that fails ends it. -/
def run (perform : List String → Call σ Unit) (listing : Call σ (List String))
    (callback : Call (Chronicle σ) Unit) : Call (Chronicle σ) Nat := do
  enter listing
  let ending ← Call.attempt callback
  let left ← Call.attempt (exit perform)
  ExceptT.mk (pure (Scoped.outcome ending left))

theorem exit_run (perform : List String → Call σ Unit) (c : Chronicle σ) : (exit perform).run c =
    if Armed c.past then
      let (answer, outside) := (perform (captured c.past)).run c.outside
      (answer.map fun _ => (captured c.past).length,
        ⟨outside, .performed (captured c.past) :: c.past⟩)
    else (.ok 0, c) := by
  simp only [exit, Call.run_bind, Call.run_get]
  split
  · simp only [Call.run_bind, note, Call.run_modify, run_onOutside]
    rcases (perform (captured c.past)).run c.outside with ⟨failure | _, outside⟩ <;> rfl
  · rfl

end Chronicle

namespace Caller

variable (perform : List String → Call σ Unit)

/-- The caller at work with a scope. -/
def call : Caller σ → Call (Scoped σ) Unit
  | done => pure ()
  | fail failure => throw failure
  | outside change next => do
    Scoped.onOutside (modify change)
    next.call
  | look next => do
    let scope := (← get).scope
    (next scope.ids scope.armed).call
  | enter listing next => do
    let answer ← Call.attempt (Scoped.enter ⟨listing, perform⟩)
    (next answer).call
  | commit next => do
    Scoped.commit
    next.call
  | exit next => do
    let answer ← Call.attempt (Scoped.exit ⟨pure [], perform⟩)
    (next answer).call
  | execute listing next => do
    let answer ← Call.attempt (Scoped.execute ⟨listing, perform⟩)
    (next answer).call
  | run listing callback next => do
    let answer ← Call.attempt (Scoped.run ⟨listing, perform⟩ callback.call)
    (next answer).call

/-- The caller at work by the past alone. -/
def tell : Caller σ → Call (Chronicle σ) Unit
  | done => pure ()
  | fail failure => throw failure
  | outside change next => do
    Chronicle.onOutside (modify change)
    next.tell
  | look next => do
    let past := (← get).past
    (next (captured past) (decide (Armed past))).tell
  | enter listing next => do
    let answer ← Call.attempt (Chronicle.enter listing)
    (next answer).tell
  | commit next => do
    Chronicle.note .committed
    next.tell
  | exit next => do
    let answer ← Call.attempt (Chronicle.exit perform)
    (next answer).tell
  | execute listing next => do
    let answer ← Call.attempt (Chronicle.execute perform listing)
    (next answer).tell
  | run listing callback next => do
    let answer ← Call.attempt (Chronicle.run perform listing callback.tell)
    (next answer).tell

end Caller

@[simp] theorem run_onOutside (x : Call σ α) (s : Scoped σ) :
    (onOutside x).run s = ((x.run s.outside).1, { s with outside := (x.run s.outside).2 }) := rfl

@[simp] theorem run_modifyScope (f : Scope → Scope) (s : Scoped σ) :
    (modifyScope f).run s = (.ok ⟨⟩, { s with scope := f s.scope }) := rfl

/-- Running a scope is entering it, the callback and leaving it, one after the other, however the
callback ends. -/
theorem run_eq (a : BulkAction σ) (callback : Call (Scoped σ) Unit) :
    run a callback = (do
      enter a
      let ending ← Call.attempt callback
      let left ← Call.attempt (exit a)
      ExceptT.mk (pure (outcome ending left))) := by
  unfold run
  refine bind_congr fun _ => bind_congr fun ending => ?_
  cases ending with
  | ok _ => exact (Call.attempt_bind_mk (exit a)).symm
  | error failure =>
    refine bind_congr fun left => ?_
    cases left <;> rfl

/-- A scope whose listing fails is not handed to the callback. -/
theorem run_run (a : BulkAction σ) (callback : Call (Scoped σ) Unit) (s : Scoped σ) :
    (run a callback).run s =
      match (enter a).run s with
      | (.error failure, t) => (.error failure, t)
      | (.ok _, t) =>
        let (ending, u) := callback.run t
        let (left, v) := (exit a).run u
        (outcome ending left, v) := by
  simp only [run_eq, Call.run_bind, Call.run_attempt]
  rcases (enter a).run s with ⟨failure | _, t⟩ <;> rfl

theorem exit_run (a : BulkAction σ) (s : Scoped σ) : (exit a).run s =
    if s.scope.armed then
      let (answer, outside) := (a.perform s.scope.ids).run s.outside
      (answer.map fun _ => s.scope.ids.length, ⟨{ s.scope with armed := false }, outside⟩)
    else (.ok 0, s) := by
  simp only [exit, Call.run_bind, Call.run_get]
  split
  · simp only [Call.run_bind, run_modifyScope, run_onOutside]
    rcases (a.perform s.scope.ids).run s.outside with ⟨failure | _, outside⟩ <;> rfl
  · rfl

/-- A scope of its own: what is listed is handed to the callback, not armed. -/
theorem within_run (a : BulkAction σ) (callback : Call (Scoped σ) Unit) (outside : σ) :
    (within (run a callback)).run outside =
      match a.listing.run outside with
      | (.error failure, after) => (.error failure, after)
      | (.ok ids, after) =>
        let (ending, s) := callback.run ⟨⟨some ids, false⟩, after⟩
        let (left, t) := (exit a).run s
        (outcome ending left, t.outside) := by
  have hrun : (within (run a callback)).run outside =
      (let (answer, s) := (run a callback).run ⟨{}, outside⟩; (answer, s.outside)) := rfl
  rw [hrun, run_run]
  simp only [enter, Call.run_bind, run_onOutside, run_modifyScope]
  rcases a.listing.run outside with ⟨failure | ids, after⟩ <;> rfl

/-- What is left of the outside world when a scope was entered. -/
theorem enter_outside (a : BulkAction σ) (s : Scoped σ) :
    ((enter a).run s).2.outside = (a.listing.run s.outside).2 := by
  simp only [enter, Call.run_bind, run_onOutside]
  rcases a.listing.run s.outside with ⟨failure | ids, outside⟩ <;> rfl

theorem exit_outside (a : BulkAction σ) (s : Scoped σ) : ((exit a).run s).2.outside =
    if s.scope.armed then ((a.perform s.scope.ids).run s.outside).2 else s.outside := by
  rw [exit_run]
  split <;> rfl

theorem execute_run (a : BulkAction σ) (s : Scoped σ) : (execute a).run s =
    match a.listing.run s.outside with
    | (.ok ids, outside) =>
      let (answer, after) := (a.perform ids).run outside
      (answer.map fun _ => ids.length, ⟨{ s.scope with captured := some ids }, after⟩)
    | (.error failure, outside) => (.error failure, { s with outside }) := by
  simp only [execute, Call.run_bind, run_onOutside, run_modifyScope]
  rcases a.listing.run s.outside with ⟨failure | ids, outside⟩
  · rfl
  · simp only []
    rcases (a.perform ids).run outside with ⟨failure | _, after⟩ <;> rfl

theorem execute_outside (a : BulkAction σ) (s : Scoped σ) : ((execute a).run s).2.outside =
    match a.listing.run s.outside with
    | (.ok ids, outside) => ((a.perform ids).run outside).2
    | (.error _, outside) => outside := by
  rw [execute_run]
  rcases a.listing.run s.outside with ⟨failure | ids, outside⟩ <;> rfl

/-- A scope as its past says it is. -/
structure Follows (s : Scoped σ) (c : Chronicle σ) : Prop where
  outside : s.outside = c.outside
  ids : s.scope.ids = captured c.past
  armed : s.scope.armed = true ↔ Armed c.past
  lawful : Lawful c.past

/-- Two computations, one with a scope and one with its past, that answer alike and leave the scope
as its past says. -/
def Matches (x : Call (Scoped σ) α) (y : Call (Chronicle σ) α) : Prop :=
  ∀ s c, Follows s c → (x.run s).1 = (y.run c).1 ∧ Follows (x.run s).2 (y.run c).2

namespace Matches

theorem pure (a : α) : Matches (pure a : Call (Scoped σ) α) (Pure.pure a) :=
  fun _ _ h => ⟨rfl, h⟩

theorem throw (failure : Failure) :
    Matches (throw failure : Call (Scoped σ) α) (MonadExcept.throw failure) :=
  fun _ _ h => ⟨rfl, h⟩

theorem bind {x : Call (Scoped σ) α} {y : Call (Chronicle σ) α} {f : α → Call (Scoped σ) β}
    {g : α → Call (Chronicle σ) β} (hxy : Matches x y) (hfg : ∀ a, Matches (f a) (g a)) :
    Matches (x >>= f) (y >>= g) := by
  intro s c h
  obtain ⟨hanswer, hfollows⟩ := hxy s c h
  rw [Call.run_bind, Call.run_bind]
  rcases hx : x.run s with ⟨failure | a, t⟩ <;> rcases hy : y.run c with ⟨failure' | b, d⟩ <;>
    rw [hx, hy] at hanswer hfollows <;> simp only [Except.error.injEq, Except.ok.injEq,
      reduceCtorEq] at hanswer
  · exact ⟨congrArg _ hanswer, hfollows⟩
  · subst hanswer
    exact hfg a t d hfollows

theorem attempt {x : Call (Scoped σ) α} {y : Call (Chronicle σ) α} (h : Matches x y) :
    Matches (Call.attempt x) (Call.attempt y) := by
  intro s c hfollows
  obtain ⟨hanswer, hfollows⟩ := h s c hfollows
  exact ⟨congrArg Except.ok hanswer, hfollows⟩

theorem onOutside (x : Call σ α) : Matches (Scoped.onOutside x) (Chronicle.onOutside x) := by
  intro s c h
  rw [run_onOutside, h.outside]
  exact ⟨rfl, rfl, h.ids, h.armed, h.lawful⟩

variable (perform : List String → Call σ Unit)

theorem enter (listing : Call σ (List String)) :
    Matches (Scoped.enter ⟨listing, perform⟩) (Chronicle.enter listing) := by
  refine (onOutside listing).bind fun ids s c h => ?_
  have hpast : ¬Armed (.entered ids :: c.past) := by simp [armed_cons, Moment.endsCommit]
  exact ⟨rfl, h.outside, rfl, iff_of_false Bool.false_ne_true hpast, h.lawful.cons (by simp)⟩

theorem commit : Matches (σ := σ) Scoped.commit (Chronicle.note .committed) := by
  intro s c h
  have hpast : Armed (.committed :: c.past) := armed_cons.mpr (Or.inl rfl)
  exact ⟨rfl, h.outside, h.ids, iff_of_true rfl hpast, h.lawful.cons (by simp)⟩

theorem exit (listing : Call σ (List String)) :
    Matches (Scoped.exit ⟨listing, perform⟩) (Chronicle.exit perform) := by
  intro s c h
  rw [exit_run, Chronicle.exit_run, ← h.ids, ← h.outside]
  by_cases harmed : s.scope.armed = true
  · have hpast := h.armed.mp harmed
    rw [if_pos harmed, if_pos hpast]
    have hspent : ¬Armed (.performed s.scope.ids :: c.past) := by
      simp [armed_cons, Moment.endsCommit]
    refine ⟨rfl, rfl, h.ids, iff_of_false Bool.false_ne_true hspent, h.lawful.cons ?_⟩
    rintro ids ⟨⟩
    exact ⟨hpast, h.ids⟩
  · rw [if_neg harmed, if_neg (mt h.armed.mpr harmed)]
    exact ⟨rfl, h⟩

theorem execute (listing : Call σ (List String)) :
    Matches (Scoped.execute ⟨listing, perform⟩) (Chronicle.execute perform listing) := by
  refine (onOutside listing).bind fun ids => bind ?_ fun _ =>
    (onOutside (perform ids)).bind fun _ => pure _
  intro s c h
  have hpast : Armed (.executed ids :: c.past) ↔ Armed c.past := by
    simp [armed_cons, Moment.endsCommit]
  exact ⟨rfl, h.outside, rfl, h.armed.trans hpast.symm, h.lawful.cons (by simp)⟩

theorem run (listing : Call σ (List String)) {callback : Call (Scoped σ) Unit}
    {told : Call (Chronicle σ) Unit} (h : Matches callback told) :
    Matches (Scoped.run ⟨listing, perform⟩ callback) (Chronicle.run perform listing told) := by
  rw [run_eq]
  refine (enter perform listing).bind fun _ => h.attempt.bind fun ending =>
    (exit perform listing).attempt.bind fun left s c hfollows => ?_
  exact ⟨rfl, hfollows⟩

/-- A caller gets the same answers from a scope and from its past. -/
theorem call (caller : Caller σ) : Matches (caller.call perform) (caller.tell perform) := by
  induction caller with
  | done => exact pure _
  | fail failure => exact throw failure
  | outside change next ih => exact (onOutside (modify change)).bind fun _ => ih
  | look next ih =>
    intro s c h
    have harmed : s.scope.armed = decide (Armed c.past) := by
      rw [Bool.eq_iff_iff, h.armed, decide_eq_true_eq]
    have hnext := ih s.scope.ids s.scope.armed s c h
    rw [h.ids, harmed] at hnext
    simpa only [Caller.call, Caller.tell, Call.run_bind, Call.run_get, h.ids, harmed] using hnext
  | enter listing next ih => exact (enter perform listing).attempt.bind ih
  | commit next ih => exact commit.bind fun _ => ih
  | exit next ih => exact (exit perform _).attempt.bind ih
  | execute listing next ih => exact (execute perform listing).attempt.bind ih
  | run listing callback next ihcallback ih =>
    exact (run perform listing ihcallback).attempt.bind ih

end Matches

/-- What a scope does at any point of its use. The caller is answered as if by the past, and the
outside world is what it would be then. Leaving performs the action if and only if the past says so,
on the ids that the past gives; a listing that fails changes nothing else; every performance on
leaving has a commit of its own; and running is entering, the callback and leaving. -/
theorem call_by_past (perform : List String → Call σ Unit) (caller : Caller σ) (outside : σ) :
    let t := ((caller.call perform).run ⟨{}, outside⟩).2
    let c := ((caller.tell perform).run ⟨outside, []⟩).2
    ((caller.call perform).run ⟨{}, outside⟩).1 = ((caller.tell perform).run ⟨outside, []⟩).1 ∧
    t.outside = c.outside ∧ t.scope.ids = captured c.past ∧
    (∀ listing, (exit ⟨listing, perform⟩).run t =
      if Armed c.past then
        let (answer, outside) := (perform (captured c.past)).run t.outside
        (answer.map fun _ => (captured c.past).length, ⟨{ t.scope with armed := false }, outside⟩)
      else (.ok 0, t)) ∧
    Lawful c.past ∧ performances c.past ≤ c.past.count .committed ∧
    (∀ listing failure outside, listing.run t.outside = (.error failure, outside) →
      (enter ⟨listing, perform⟩).run t = (.error failure, { t with outside }) ∧
        (execute ⟨listing, perform⟩).run t = (.error failure, { t with outside })) ∧
    ∀ listing callback, (run ⟨listing, perform⟩ callback).run t =
      match (enter ⟨listing, perform⟩).run t with
      | (.error failure, u) => (.error failure, u)
      | (.ok _, u) =>
        let (ending, v) := callback.run u
        let (left, w) := (exit ⟨listing, perform⟩).run v
        (outcome ending left, w) := by
  intro t c
  have hstart : Follows ⟨{}, outside⟩ ⟨outside, []⟩ :=
    ⟨rfl, rfl, iff_of_false Bool.false_ne_true not_armed_nil, lawful_nil⟩
  obtain ⟨hanswer, h⟩ := Matches.call perform caller _ _ hstart
  refine ⟨hanswer, h.outside, h.ids, fun listing => ?_, h.lawful, ?_,
    fun listing failure outside hlisting => ⟨?_, ?_⟩, fun listing callback => run_run _ _ _⟩
  · rw [exit_run, ← h.ids]
    exact if_congr h.armed rfl rfl
  · exact Nat.le_trans (Nat.le_add_right _ _) h.lawful.performances_le
  · simp only [enter, Call.run_bind, run_onOutside, hlisting]
  · simp only [execute, Call.run_bind, run_onOutside, hlisting]

/-- What was armed before the callback failed is performed, once. -/
example :
    let perform (ids : List String) : Call (List (List String)) Unit := modify (ids :: ·)
    let caller : Caller (List (List String)) :=
      .run (pure ["m1"]) (.commit (.fail .invalidTime)) fun _ => .exit fun _ => .done
    ((caller.call perform).run ⟨{}, []⟩).2.outside = [["m1"]] := rfl

end Mailroom.Scoped
