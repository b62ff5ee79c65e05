import Mailroom.Text.Split

/-! Arguments of a command: words that name the command, operands in order, and parameters behind
two dashes, whose values stand behind an equals sign or are the next argument. -/

namespace Mailroom.Program

/-- How many values a parameter takes. -/
inductive Arity
  | none
  | one
  | many
deriving DecidableEq, Repr

/-- A parameter of a command. -/
structure Parameter where
  name : String
  arity : Arity := .one
  /-- The values that it may have, if not every value will do. -/
  choices : List String := []
deriving DecidableEq, Repr

/-- How a command is called. -/
structure Usage where
  words : List String
  operands : List String := []
  parameters : List Parameter := []
deriving DecidableEq, Repr

namespace Usage

/-- The words of a command in one text. -/
def name (u : Usage) : String := " ".intercalate u.words

/-- The name and the operands of a command. -/
def text (u : Usage) : String :=
  " ".intercalate (u.words ++ u.operands.map fun operand => "<" ++ operand ++ ">")

def parameter? (u : Usage) (name : String) : Option Parameter :=
  u.parameters.find? (·.name == name)

end Usage

/-- The arguments that a command was called with: operands, and the values of parameters in the
order they were given. -/
structure Arguments where
  operands : List String := []
  values : List (String × String) := []
deriving DecidableEq, Repr

namespace Arguments

/-- The last value of a parameter, if it was given and is not empty. -/
def text? (a : Arguments) (name : String) : Option String :=
  (a.values.reverse.lookup name).filter (!·.isEmpty)

/-- The last value of a parameter, empty if it was not given. -/
def text (a : Arguments) (name : String) : String := (a.text? name).getD ""

/-- All values of a parameter. -/
def texts (a : Arguments) (name : String) : List String :=
  (a.values.filter fun entry => entry.1 == name).map Prod.snd

def isGiven (a : Arguments) (name : String) : Bool := a.values.any fun entry => entry.1 == name

/-- An operand by its place, empty if it was not given. -/
def operand (a : Arguments) (i : Nat) : String := (a.operands[i]?).getD ""

def addOperand (operand : String) (a : Arguments) : Arguments :=
  { a with operands := operand :: a.operands }

def addValue (a : Arguments) (name value : String) : Arguments :=
  { a with values := (name, value) :: a.values }

/-- The name of a parameter and the value behind the equals sign, if there is one. -/
def cutName (written : List Char) : String × Option String :=
  let name := String.ofList (written.takeWhile (· != '='))
  match written.dropWhile (· != '=') with
  | _ :: value => (name, some (String.ofList value))
  | [] => (name, none)

/-- The parameter that an argument names: one behind two dashes. -/
def parameterName? (argument : String) : Option (String × Option String) :=
  (Text.after? ['-', '-'] argument.toList).map cutName

def quoted (value : String) : String := "\"" ++ value ++ "\""

/-- The value of a parameter, or what is wrong with it. -/
def checked (p : Parameter) (value : String) : Except String String :=
  if p.choices.isEmpty || p.choices.contains value then .ok value
  else .error ("Invalid value for --" ++ p.name ++ ": expected one of "
    ++ ", ".intercalate (p.choices.map quoted) ++ ", got " ++ quoted value)

/-- The arguments of a call, or what is wrong with it. -/
def read (u : Usage) : List String → Except String Arguments
  | [] => .ok {}
  | argument :: rest =>
    match parameterName? argument with
    | none => (read u rest).map (addOperand argument)
    | some (name, value?) =>
      match u.parameter? name, value? with
      | none, _ => .error ("Unknown option \x60--" ++ name ++ "\x60")
      | some ⟨_, .none, _⟩, _ => return (← read u rest).addValue name ""
      | some p, some value => do
        let value ← checked p value
        return (← read u rest).addValue name value
      | some p, none =>
        match rest with
        | value :: others => do
          let value ← checked p value
          return (← read u others).addValue name value
        | [] => .error ("option \x60--" ++ name ++ " <" ++ name ++ ">\x60 value is missing")

/-- The arguments of a call with all operands, or what is wrong with it. -/
def readAll (u : Usage) (arguments : List String) : Except String Arguments := do
  let a ← read u arguments
  if a.operands.length < u.operands.length then
    throw ("missing required args for command \x60" ++ u.text ++ "\x60")
  return a

end Arguments

end Mailroom.Program
