import Mailroom.Proofs.Remote.Shortage
import Mailroom.Remote.Retry

/-! Attempts of a call that is made again while the quota is short. They are described on a state
that keeps a record: what each call adds to it and what each pause adds. The record of all attempts
is that of the faults met, with a pause behind each that is twice as long as the one before, and of
the last outcome. -/

namespace Mailroom.Remote

variable {σ τ α ε : Type}

@[simp] theorem mapError_error {ε' : Type} (f : ε → ε') (e : ε) :
    (Except.error e : Except ε α).mapError f = .error (f e) := rfl

@[simp] theorem mapError_ok {ε' : Type} (f : ε → ε') (a : α) :
    (Except.ok a : Except ε α).mapError f = .ok a := rfl

/-- What attempts add to a record: the faults after which the call was made again, a pause behind
each, and the last outcome. -/
def attemptsRecord (noted : Except Fault α → List ε) (paused : Rat → List ε) :
    Rat → List Fault → Except Fault α → List ε
  | _, [], last => noted last
  | delay, fault :: faults, last =>
    noted (.error fault) ++ paused delay ++ attemptsRecord noted paused (2 * delay) faults last

/-- The faults after which a call was made again, and its last outcome, if `attempts` calls are
allowed: only a shortage of quota is followed by another call, and it is unless no call is left. -/
structure Attempted (faults : List Fault) (last : Except Fault α) (attempts : Nat) : Prop where
  retried : ∀ fault ∈ faults, fault.isRateLimit = .ok true
  length : faults.length < attempts
  last : ∀ fault, last = .error fault → fault.isRateLimit = .ok true → faults.length + 1 = attempts

/-- A call that is made once. -/
theorem Attempted.once {last : Except Fault α} {attempts : Nat}
    (h : ∀ fault, last = .error fault → fault.isRateLimit = .ok true → attempts = 0) :
    Attempted [] last (attempts + 1) :=
  ⟨by simp, Nat.succ_pos _, fun fault hlast hshort => by rw [h fault hlast hshort]; rfl⟩

/-- A call that is made once more than some attempts. -/
theorem Attempted.again {faults : List Fault} {last : Except Fault α} {attempts : Nat}
    (h : Attempted faults last attempts) {fault : Fault} (hshort : fault.isRateLimit = .ok true) :
    Attempted (fault :: faults) last (attempts + 1) :=
  ⟨List.forall_mem_cons.mpr ⟨hshort, h.retried⟩, Nat.succ_lt_succ h.length,
    fun other hlast hother => congrArg Nat.succ (h.last other hlast hother)⟩

section Recorded

variable {pause : Rat → StateM σ Unit} {call : StateM σ (Except Fault α)}

/-- A call that answers, that meets another fault or that has no attempt left is the last. It leaves
its outcome, but a fault that is misread gives way to what is raised instead. -/
theorem retry_last {attempts : Nat} {s : σ} (delay : Rat)
    (h : ∀ fault, (call s).1 = .error fault → fault.isRateLimit = .ok true → attempts = 0) :
    retry pause call (attempts + 1) delay s = ((call s).1.mapError Fault.surfaced, (call s).2) := by
  simp only [retry, bind, StateT.bind]
  rcases hrun : call s with ⟨fault | a, t⟩
  · rw [hrun] at h
    simp only [mapError_error, Fault.surfaced]
    rcases hasked : fault.isRateLimit with raised | _ | _
    · rfl
    · simp
      rfl
    · simp [h fault rfl hasked]
      rfl
  · rfl

theorem retry_again {attempts : Nat} {s : σ} (delay : Rat) {fault : Fault}
    (hcall : (call s).1 = .error fault) (hshort : fault.isRateLimit = .ok true)
    (h : attempts ≠ 0) : retry pause call (attempts + 1) delay s =
      retry pause call attempts (2 * delay) (pause delay (call s).2).2 := by
  simp only [retry, bind, StateT.bind]
  rcases hrun : call s with ⟨outcome, t⟩
  obtain rfl : outcome = .error fault := by rw [← hcall, hrun]
  simp [hshort, h]
  rfl

/-- A call is the last, or it is made again. -/
theorem last_or_again (attempts : Nat) (outcome : Except Fault α) :
    (∀ fault, outcome = .error fault → fault.isRateLimit = .ok true → attempts = 0) ∨
      ∃ fault, outcome = .error fault ∧ fault.isRateLimit = .ok true ∧ attempts ≠ 0 := by
  cases outcome with
  | error fault =>
    by_cases hshort : fault.isRateLimit = .ok true <;> by_cases hnone : attempts = 0 <;>
      simp [hshort, hnone]
  | ok a => exact .inl nofun

variable (pause call)

/-- What neither the call nor a pause changes stays. -/
theorem retry_keeps (view : σ → τ) (hcall : ∀ s, view (call s).2 = view s)
    (hpause : ∀ delay s, view (pause delay s).2 = view s) (attempts : Nat) (delay : Rat) (s : σ) :
    view (retry pause call attempts delay s).2 = view s := by
  induction attempts generalizing delay s with
  | zero => rfl
  | succ attempts ih =>
    rcases last_or_again attempts (call s).1 with hlast | ⟨fault, hfault, hshort, hleft⟩
    · rw [retry_last delay hlast]
      exact hcall s
    · rw [retry_again delay hfault hshort hleft, ih, hpause, hcall]

/-- The attempts of a call, what they end in, and their record. -/
theorem retry_attempted (view : σ → List ε) (noted : Except Fault α → List ε)
    (paused : Rat → List ε) (hcall : ∀ s, view (call s).2 = view s ++ noted (call s).1)
    (hpause : ∀ delay s, view (pause delay s).2 = view s ++ paused delay)
    (attempts : Nat) (delay : Rat) (s : σ) :
    ∃ faults last, Attempted faults last (attempts + 1) ∧
      (retry pause call (attempts + 1) delay s).1 = last.mapError Fault.surfaced ∧
      view (retry pause call (attempts + 1) delay s).2 =
        view s ++ attemptsRecord noted paused delay faults last := by
  induction attempts generalizing delay s with
  | zero =>
    rw [retry_last delay fun _ _ _ => rfl]
    exact ⟨[], (call s).1, .once fun _ _ _ => rfl, rfl, hcall s⟩
  | succ attempts ih =>
    rcases last_or_again (attempts + 1) (call s).1 with hlast | ⟨fault, hfault, hshort, hleft⟩
    · rw [retry_last delay hlast]
      exact ⟨[], (call s).1, .once hlast, rfl, hcall s⟩
    · -- The fault comes before the attempts of making the call again.
      rw [retry_again delay hfault hshort hleft]
      obtain ⟨faults, last, hattempted, hend, hrecord⟩ := ih (2 * delay) (pause delay (call s).2).2
      refine ⟨fault :: faults, last, hattempted.again hshort, hend, hrecord.trans ?_⟩
      rw [hpause, hcall, hfault, attemptsRecord]
      simp only [List.append_assoc]

end Recorded

end Mailroom.Remote
