import Mailroom.Data.Value

/-! Contacts: an electronic mail address, with the name it is shown under if there is one. -/

namespace Mailroom

/-- An address with a name. -/
structure Contact where
  name : Option String
  email : String
deriving DecidableEq, Repr

namespace Contact

/-- The name and the address in angle brackets; the address alone if there is no name of its
own. -/
def text (c : Contact) : String :=
  match c.name with
  | some name => if name.isEmpty || name = c.email then c.email else name ++ " <" ++ c.email ++ ">"
  | none => c.email

def toValue (c : Contact) : Value :=
  .recordOf [("name", c.name.map .str), ("email", some (.str c.email))]

/-- The contact that data describes. -/
def ofValue (v : Value) : Contact := ⟨v.textAt? "name", (v.textAt? "email").getD ""⟩

end Contact

end Mailroom
