import Stencil.Text.Basic

/-!
# Arguments

The words of a command line, read one by one from left to right at one level of it. A level has
options, which start with one or two hyphens, and positions, which take the other words in their
order; a word may also be a command, which ends the level. A value is recorded only when the next
option or position begins, or at the end: so a fault of a value shows after a fault of the word that
comes next, if that word is no option of the level at all, and before any other fault.
-/

namespace Stencil.Arguments

/-- What is wrong with a command line. -/
inductive Fault where
  /-- No command is given. -/
  | missingCommand
  /-- The word is no command. -/
  | unknownCommand
  /-- The word is no option, or there is no position left for it. -/
  | unknownArgument
  /-- A position is left without a word. -/
  | missingArgument
  /-- An option is left without its value. -/
  | missingValue
  /-- An option without a value is given one. -/
  | unneededValue
  /-- An option is given twice. -/
  | repeated
  /-- The value of a position is refused. -/
  | invalidValue
deriving DecidableEq, Repr

/-- Why no command is run: it is asked how to, or the command line is wrong. -/
inductive Stop where
  /-- The help is asked for. -/
  | help
  /-- The version is asked for. -/
  | version
  /-- The command line is wrong. -/
  | fault (f : Fault)
deriving DecidableEq, Repr

/-- What an option does. -/
inductive Effect where
  /-- It takes a value. -/
  | value
  /-- It is given or not. -/
  | flag
  /-- It asks for the help. -/
  | help
  /-- It asks for the version. -/
  | version
deriving DecidableEq, Repr

/-- An option. -/
structure OptionRule where
  /-- The name behind two hyphens. -/
  name : Text
  /-- The character behind one hyphen. -/
  letter? : Option Char
  /-- What the option does. -/
  effect : Effect

/-- A position. -/
structure PositionRule where
  /-- The name of the position. -/
  name : Text
  /-- Whether there has to be a word for it. -/
  required : Bool
  /-- Whether a word is accepted. -/
  accepts : Text → Bool

/-- A level of a command line. -/
structure Level where
  /-- The options. -/
  options : List OptionRule
  /-- The positions in their order. -/
  positions : List PositionRule
  /-- The commands that end the level. -/
  commands : List Text

/-- A value that is not recorded yet. -/
inductive Pending where
  /-- The value of an option, if it has been given. -/
  | option (name : Text) (value? : Option Text)
  /-- The word of a position. -/
  | position (rule : PositionRule) (word : Text)

/-- How far a level is read. -/
structure Progress where
  /-- The values by option and position; a flag that is given has a value without characters. -/
  given : List (Text × Text) := []
  /-- The value that is not recorded yet. -/
  pending? : Option Pending := none
  /-- The number of positions that have a word. -/
  filled : Nat := 0
  /-- Whether all further words are for positions. -/
  trailing : Bool := false

namespace Progress

/-- Records the value of an option. -/
def record (p : Progress) (name value : Text) : Except Stop Progress :=
  if p.given.any (·.1 = name) then .error (.fault .repeated)
  else .ok { p with given := p.given ++ [(name, value)], pending? := none }

/-- Records the pending value. -/
def settle (p : Progress) : Except Stop Progress :=
  match p.pending? with
  | none => .ok p
  | some (.option _ none) => .error (.fault .missingValue)
  | some (.option name (some value)) => p.record name value
  | some (.position rule word) =>
    if rule.accepts word then p.record rule.name word else .error (.fault .invalidValue)

/-- The effect of an option on the way, with the value that is attached to it. -/
def take (p : Progress) (rule : OptionRule) (value? : Option Text) : Except Stop Progress :=
  match rule.effect, value? with
  | .value, some value => do (← p.settle).record rule.name value
  | .value, none => do return { ← p.settle with pending? := some (.option rule.name none) }
  | _, some _ => .error (.fault .unneededValue)
  | .flag, none => do (← p.settle).record rule.name []
  | .help, none => do
    let _ ← p.settle
    .error .help
  | .version, none => do
    let _ ← p.settle
    .error .version

end Progress

namespace Level

/-- Reads the option behind two hyphens; its value may follow an equals sign. -/
def long (level : Level) (p : Progress) (body : Text) : Except Stop Progress :=
  let (name, value?) := match Text.splitOnce? '=' body with
    | some (name, value) => (name, some value)
    | none => (body, none)
  match level.options.find? (·.name = name) with
  | some rule => p.take rule value?
  | none => .error (.fault .unknownArgument)

/-- Reads the options behind one hyphen. The rest of the word is the value of the first one that
takes a value, without an equals sign before it. -/
def short (level : Level) (p : Progress) : Text → Except Stop Progress
  | [] => .ok p
  | c :: rest =>
    match level.options.find? (·.letter? = some c) with
    | none => .error (.fault .unknownArgument)
    | some rule =>
      if rule.effect = .value then
        p.take rule (match rest with
          | [] => none
          | '=' :: value => some value
          | value => some value)
      else do
        level.short (← p.take rule none) rest

/-- Reads a word for the next position. -/
def word (level : Level) (p : Progress) (w : Text) : Except Stop Progress :=
  match level.positions[p.filled]? with
  | some rule => do
    return { ← p.settle with pending? := some (.position rule w), filled := p.filled + 1 }
  | none =>
    if level.commands.isEmpty || (p.trailing && level.commands.contains w) then
      .error (.fault .unknownArgument)
    else .error (.fault .unknownCommand)

/-- Reads a word that is no command. -/
def read (level : Level) (p : Progress) (w : Text) : Except Stop Progress :=
  if p.trailing then level.word p w
  else
    match w with
    | ['-', '-'] => .ok { p with trailing := true }
    | '-' :: '-' :: body => level.long p body
    | '-' :: c :: body => level.short p (c :: body)
    | w =>
      match p.pending? with
      | some (.option name none) => .ok { p with pending? := some (.option name (some w)) }
      | _ => level.word p w

/-- Whether the pending option still lacks its value. -/
def awaits (p : Progress) : Bool :=
  match p.pending? with
  | some (.option _ none) => true
  | _ => false

/-- Reads words up to a command of the level, which is returned with the words behind it. -/
def scan (level : Level) (p : Progress) :
    List Text → Except Stop (Progress × Option (Text × List Text))
  | [] => .ok (p, none)
  | w :: rest =>
    if !p.trailing && !awaits p && level.commands.contains w then .ok (p, some (w, rest))
    else do level.scan (← level.read p w) rest

/-- The values of a level whose words have all been read. -/
def finish (level : Level) (p : Progress) : Except Stop (List (Text × Text)) := do
  let p ← p.settle
  if (level.positions.drop p.filled).any (·.required) then .error (.fault .missingArgument)
  else return p.given

end Level

end Stencil.Arguments
