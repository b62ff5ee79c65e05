import Mailroom.Fault

/-! Trying again. A call that fails for a shortage of quota is made again after a pause, each
pause twice as long as the one before it. Any other fault ends the attempts, and so does one that
cannot be asked whether it is a shortage: what asking raised takes its place. -/

namespace Mailroom.Remote

/-- What is raised when no attempt is allowed at all. -/
def noAttempt : Fault := .ofMessage "unreachable"

/-- The outcome of at most `attempts` calls, with `delay` before the second. -/
def retry {m : Type → Type} [Monad m] {α : Type} (pause : Rat → m Unit)
    (call : m (Except Fault α)) : Nat → Rat → m (Except Fault α)
  | 0, _ => return .error noAttempt
  | attempts + 1, delay => do
    match ← call with
    | .ok a => return .ok a
    | .error fault =>
      match fault.isRateLimit with
      | .error raised => return .error raised
      | .ok isShort =>
        if !isShort || attempts = 0 then return .error fault
        else
          pause delay
          retry pause call attempts (2 * delay)

end Mailroom.Remote
