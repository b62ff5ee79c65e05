import Mailroom.Remote.Client
import Mailroom.Session.Labels

/-! Connecting: a session over a wire, once the account's address and its labels are known. -/

namespace Mailroom.Session

open Remote (Client Wire MailService)

variable {ω : Type} [Wire ω] [Clock ω]

/-- A session with a client, not connected yet. -/
def onWire (wire : ω) (settings : Settings) : Session (Client ω) :=
  { outside := { wire }, settings }

/-- Ask for the address of the account and for the labels. -/
def connect : Op (Client ω) Unit := do
  let email ← onOutside MailService.profile
  modify fun s => { s with email := some email }
  let _ ← refresh

end Mailroom.Session
