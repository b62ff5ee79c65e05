import Mailroom.Proofs.Remote.Attempts
import Mathlib.Algebra.Order.Ring.Rat
import Mathlib.Tactic.Ring

/-! How often a call is made, and the pauses between. A call that is made again while the quota is
short is made up to the first outcome that is something else, or until no attempt is left. Nothing
but a pause comes between two calls, twice as long each time, and nothing comes behind the last
one, whatever would be answered if there were no attempt at all. Its outcome is the result, but a
fault that cannot be asked for a reason of quota is lost: what asking raised is the result then. -/

namespace Mailroom.Remote

variable {σ α : Type}

/-- An outcome after which a call may be made again: a shortage of quota. -/
def Short (outcome : Except Fault α) : Prop :=
  ∃ fault, outcome = .error fault ∧ fault.LacksQuota

theorem short_iff {outcome : Except Fault α} : Short outcome ↔
    ∃ fault, outcome = .error fault ∧ fault.isRateLimit = .ok true := by
  simp only [Short, Fault.isRateLimit_eq_true_iff]

/-- What is left of the last outcome: the same, or what is raised instead of a misread fault. -/
inductive Leaves : Except Fault α → Except Fault α → Prop
  | answer (a : α) : Leaves (.ok a) (.ok a)
  | fault {fault : Fault} : (∀ raised, ¬fault.Misread raised) → Leaves (.error fault) (.error fault)
  | misread {fault raised : Fault} : fault.Misread raised → Leaves (.error fault) (.error raised)

theorem leaves_surfaced (outcome : Except Fault α) :
    Leaves outcome (outcome.mapError Fault.surfaced) := by
  cases outcome with
  | ok a => exact .answer a
  | error fault =>
    rw [mapError_error]
    cases hasked : fault.isRateLimit with
    | error raised =>
      have hmisread := Fault.isRateLimit_eq_error_iff.mp hasked
      exact Fault.surfaced_of_misread hmisread ▸ .misread hmisread
    | ok isShort =>
      rw [Fault.surfaced_of_ok hasked]
      exact .fault fun _ => Fault.not_misread_of_ok hasked

theorem Leaves.of_misread {fault raised : Fault} {left : Except Fault α}
    (h : Leaves (.error fault) left) (hraised : fault.Misread raised) : left = .error raised := by
  cases h with
  | fault hread => exact absurd hraised (hread raised)
  | misread hother => rw [hother.unique hraised]

/-- Among the outcomes to come there is one to end with: those before it are shortages, and it is
one only if no attempt is left behind it. -/
theorem exists_last (outcomes : Nat → Except Fault α) {attempts : Nat} (h : 0 < attempts) :
    ∃ n < attempts, (∀ i < n, Short (outcomes i)) ∧ (Short (outcomes n) → n + 1 = attempts) := by
  induction attempts with
  | zero => exact absurd h (Nat.lt_irrefl 0)
  | succ attempts ih =>
    rcases Nat.eq_zero_or_pos attempts with rfl | hpos
    · exact ⟨0, Nat.one_pos, fun i hi => absurd hi (Nat.not_lt_zero i), fun _ => rfl⟩
    · obtain ⟨n, hn, hbefore, hlast⟩ := ih hpos
      by_cases hshort : Short (outcomes n)
      · obtain rfl := hlast hshort
        refine ⟨n + 1, Nat.lt_succ_self _, fun i hi => ?_, fun _ => rfl⟩
        rcases Nat.lt_succ_iff_lt_or_eq.mp hi with hi | rfl
        · exact hbefore i hi
        · exact hshort
      · exact ⟨n, Nat.lt_succ_of_lt hn, hbefore, fun h => absurd h hshort⟩

section Any

variable (pause : Rat → StateM σ Unit) (call : StateM σ (Except Fault α))

/-! ### Any call -/

/-- The state in which a call is made after it was made `n` times, each with its pause. -/
def reached (delay : Rat) (s : σ) : Nat → σ
  | 0 => s
  | n + 1 => (pause (delay * 2 ^ n) (call (reached delay s n)).2).2

/-- The first call and its pause in front of the others, whose pauses begin with twice the delay. -/
theorem reached_succ (delay : Rat) (s : σ) (n : Nat) : reached pause call delay s (n + 1) =
    reached pause call (2 * delay) (pause delay (call s).2).2 n := by
  induction n with
  | zero => simp [reached]
  | succ n ih =>
    have hdelay : delay * 2 ^ (n + 1) = 2 * delay * 2 ^ n := by ring
    rw [reached, ih, reached, hdelay]

variable {pause call}

/-- All that is done is done by the calls up to the last one and their pauses. -/
theorem retry_eq_last {attempts n : Nat} {delay : Rat} {s : σ} (hn : n < attempts)
    (hbefore : ∀ i < n, Short (call (reached pause call delay s i)).1)
    (hlast : Short (call (reached pause call delay s n)).1 → n + 1 = attempts) :
    retry pause call attempts delay s =
      ((call (reached pause call delay s n)).1.mapError Fault.surfaced,
        (call (reached pause call delay s n)).2) := by
  induction n generalizing attempts delay s with
  | zero =>
    obtain ⟨attempts, rfl⟩ := Nat.exists_eq_add_of_lt hn
    refine retry_last delay fun fault hfault hshort => ?_
    have := hlast (short_iff.mpr ⟨fault, hfault, hshort⟩)
    omega
  | succ n ih =>
    obtain ⟨attempts, rfl⟩ := Nat.exists_eq_add_of_le' (Nat.one_le_of_lt hn)
    obtain ⟨fault, hfault, hshort⟩ := short_iff.mp (hbefore 0 (Nat.succ_pos n))
    have hleft : attempts ≠ 0 := by omega
    rw [reached_succ] at hlast ⊢
    rw [retry_again (s := s) delay hfault hshort hleft]
    refine ih (Nat.lt_of_succ_lt_succ hn) (fun i hi => ?_) fun hend => Nat.succ.inj (hlast hend)
    rw [← reached_succ]
    exact hbefore (i + 1) (Nat.succ_lt_succ hi)

/-! ### No attempt at all -/

/-- A call that is made again while the quota is short, with an answer of its own for when no
attempt is allowed. -/
def retryOr (ending : Except Fault α) (pause : Rat → StateM σ Unit)
    (call : StateM σ (Except Fault α)) : Nat → Rat → StateM σ (Except Fault α)
  | 0, _ => return ending
  | attempts + 1, delay => do
    match ← call with
    | .ok a => return .ok a
    | .error fault =>
      match fault.isRateLimit with
      | .error raised => return .error raised
      | .ok isShort =>
        if !isShort || attempts = 0 then return .error fault
        else
          pause delay
          retryOr ending pause call attempts (2 * delay)

theorem retryOr_noAttempt (attempts : Nat) (delay : Rat) (s : σ) :
    retryOr (.error noAttempt) pause call attempts delay s = retry pause call attempts delay s := by
  induction attempts generalizing delay s with
  | zero => rfl
  | succ attempts ih =>
    simp only [retryOr, retry, bind, StateT.bind]
    rcases call s with ⟨fault | a, t⟩
    · dsimp only
      cases fault.isRateLimit with
      | error raised => rfl
      | ok isShort =>
        dsimp only
        split
        · rfl
        · exact ih (2 * delay) _
    · rfl

/-- What is answered when no attempt is allowed plays no part when one is. -/
theorem retryOr_congr (ending other : Except Fault α) {attempts : Nat} (h : 0 < attempts)
    (delay : Rat) (s : σ) : retryOr ending pause call attempts delay s =
      retryOr other pause call attempts delay s := by
  induction attempts generalizing delay s with
  | zero => exact absurd h (Nat.lt_irrefl 0)
  | succ attempts ih =>
    simp only [retryOr, bind, StateT.bind]
    rcases call s with ⟨fault | a, t⟩
    · dsimp only
      cases fault.isRateLimit with
      | error raised => rfl
      | ok isShort =>
        dsimp only
        split
        · rfl
        · next hgo =>
          have hleft : attempts ≠ 0 := fun hnone => hgo (by simp [hnone])
          exact ih (Nat.pos_of_ne_zero hleft) (2 * delay) _
    · rfl

end Any

/-! ### Outcomes in a row -/

/-- What is done for a call that is made again. -/
inductive Deed (α : Type)
  | called (outcome : Except Fault α)
  | waited (delay : Rat)

/-- How often a call was made, and what was done for it so far. -/
structure Rehearsal (α : Type) where
  made : Nat := 0
  deeds : List (Deed α) := []

namespace Rehearsal

/-- A call that has the outcomes of a sequence one after another. -/
def call (outcomes : Nat → Except Fault α) : StateM (Rehearsal α) (Except Fault α) := fun r =>
  (outcomes r.made, ⟨r.made + 1, r.deeds ++ [.called (outcomes r.made)]⟩)

def pause (delay : Rat) : StateM (Rehearsal α) Unit :=
  modify fun r => { r with deeds := r.deeds ++ [.waited delay] }

/-- Some calls, each with its pause behind it. -/
def rounds (outcomes : Nat → Except Fault α) (delay : Rat) (n : Nat) : List (Deed α) :=
  (List.range n).flatMap fun i => [.called (outcomes i), .waited (delay * 2 ^ i)]

theorem reached_eq (outcomes : Nat → Except Fault α) (delay : Rat) (n : Nat) :
    reached pause (call outcomes) delay {} n = ⟨n, rounds outcomes delay n⟩ := by
  induction n with
  | zero => rfl
  | succ n ih =>
    have hrounds : rounds outcomes delay (n + 1) =
        rounds outcomes delay n ++ [.called (outcomes n)] ++ [.waited (delay * 2 ^ n)] := by
      simp [rounds, List.range_succ]
    rw [reached, ih, hrounds]
    rfl

end Rehearsal

/-- The attempts of a call, for every sequence of outcomes. It is made as often as it takes to have
an outcome that is no shortage of quota, or as often as is allowed. The last outcome is the result,
unless it is a fault that is misread; then what is raised instead is. Before the call is made again
there is one pause, of the delay doubled as often as there were pauses before, and behind the last
call nothing; what is answered when no attempt is allowed is never answered. -/
theorem retry_by_outcomes (outcomes : Nat → Except Fault α) {maxAttempts : Nat}
    (hmax : 1 ≤ maxAttempts) (delay : Rat) :
    let run := retry Rehearsal.pause (Rehearsal.call outcomes) maxAttempts delay {}
    let made := run.2.made
    (∀ k, (∀ i < k, Short (outcomes i)) → ¬Short (outcomes k) → made = min (k + 1) maxAttempts) ∧
    ((∀ i < maxAttempts, Short (outcomes i)) → made = maxAttempts) ∧
    Leaves (outcomes (made - 1)) run.1 ∧
    run.2.deeds = Rehearsal.rounds outcomes delay (made - 1) ++ [.called (outcomes (made - 1))] ∧
    ∀ ending, retryOr ending Rehearsal.pause (Rehearsal.call outcomes) maxAttempts delay {} =
      run := by
  obtain ⟨n, hn, hbefore, hlast⟩ := exists_last outcomes hmax
  have hrun : retry Rehearsal.pause (Rehearsal.call outcomes) maxAttempts delay {} =
      ((outcomes n).mapError Fault.surfaced,
        ⟨n + 1, Rehearsal.rounds outcomes delay n ++ [.called (outcomes n)]⟩) := by
    rw [retry_eq_last hn, Rehearsal.reached_eq]
    · rfl
    · simp only [Rehearsal.reached_eq]
      exact hbefore
    · rw [Rehearsal.reached_eq]
      exact hlast
  intro run made
  have hmade : made = n + 1 := congrArg (·.2.made) hrun
  have hresult : run.1 = (outcomes n).mapError Fault.surfaced := congrArg (·.1) hrun
  have hdeeds : run.2.deeds = Rehearsal.rounds outcomes delay n ++ [.called (outcomes n)] :=
    congrArg (·.2.deeds) hrun
  rw [hmade, Nat.add_sub_cancel]
  refine ⟨fun k hshort hother => ?_, fun hshort => hlast (hshort n hn),
    hresult ▸ leaves_surfaced (outcomes n), hdeeds, fun ending => ?_⟩
  · -- The first other outcome is the last call, unless the attempts are over before it.
    rcases Nat.lt_trichotomy n k with hlt | rfl | hgt
    · have := hlast (hshort n hlt)
      omega
    · omega
    · exact absurd (hbefore k hgt) hother
  · exact (retryOr_congr ending (.error noAttempt) hmax delay _).trans (retryOr_noAttempt _ _ _)

/-- Two shortages and a refusal whose list of details is a text: three calls of the five that are
allowed, with two pauses, and the refusal is lost. -/
theorem retry_by_outcomes_third :
    let short : Except Fault Nat := .error (.error "Error" "slow down" [("code", .ofNat 429)])
    let refusal : Fault := .bare (.obj [("code", .ofNat 403), ("errors", .str "quotaExceeded")])
    let outcomes : Nat → Except Fault Nat := fun n => if n < 2 then short else .error refusal
    let run := retry Rehearsal.pause (Rehearsal.call outcomes) 5 2000 {}
    1 ≤ 5 ∧ run.1 = .error (.ofMisuse "errors.some is not a function") ∧ run.2.made = 3 ∧
      run.2.deeds = [.called short, .waited 2000, .called short, .waited 4000,
        .called (.error refusal)] ∧
      ∀ ending, retryOr ending Rehearsal.pause (Rehearsal.call outcomes) 5 2000 {} = run := by
  intro short refusal outcomes run
  have hshort : Short short := ⟨_, rfl, .status (by decide +kernel)⟩
  have hmisread : refusal.Misread (.ofMisuse "errors.some is not a function") :=
    .unlisted (by decide +kernel) rfl nofun
  have hrefused : ¬Short (outcomes 2) := by
    rintro ⟨fault, hfault, hlacks⟩
    cases hfault
    exact Fault.not_misread_of_ok (Fault.isRateLimit_eq_true_iff.mpr hlacks) hmisread
  obtain ⟨hmade, -, hresult, hdeeds, hending⟩ :=
    retry_by_outcomes outcomes (by decide : 1 ≤ 5) 2000
  have hbefore : ∀ i < 2, Short (outcomes i) := by
    intro i hi
    rwa [show outcomes i = short from if_pos hi]
  have hthree : run.2.made = 3 := hmade 2 hbefore hrefused
  rw [hthree] at hresult hdeeds
  refine ⟨by decide, hresult.of_misread hmisread, hthree, hdeeds.trans ?_, hending⟩
  norm_num [Rehearsal.rounds, outcomes, List.range_succ]

end Mailroom.Remote
