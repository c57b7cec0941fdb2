import ModuleBundler.Config.Read

/-
  The arguments of the command. Options have a name after two dashes. One that takes a value has
  it after an equals sign or as the next argument, which then may not look like an option; a
  single dash is a value. Apart from options there is one operand, the project file. After two
  dashes alone everything is an operand. Arguments are looked at from left to right, and the first
  one that is wrong, or that asks for help or the version, decides.
-/

namespace ModuleBundler

/-- How log messages are written. -/
inductive LogFormat where
  | pretty
  | compact
  | json
  deriving DecidableEq, Repr, Inhabited

/-- The format with a name. -/
def LogFormat.ofName? (name : String) : Option LogFormat :=
  if name == "pretty" then some .pretty
  else if name == "compact" then some .compact
  else if name == "json" then some .json
  else none

/-- What is asked for on the command line. -/
structure Arguments where
  /-- The path of the project file. -/
  project? : Option String := none
  entry? : Option String := none
  directory? : Option String := none
  fileName? : Option String := none
  /-- Whether the bundle is printed and not written. -/
  toOutput : Bool := false
  /-- Whether the dependency graph is printed. -/
  dumpGraph : Bool := false
  logLevel? : Option LogLevel := none
  /-- Levels of phases, in the order in which they were given. -/
  logPhases : List String := []
  logFormat? : Option LogFormat := none
  logFile? : Option String := none
  deriving DecidableEq, Repr, Inhabited

/-- Why arguments are refused. -/
inductive UsageError where
  | unknown (argument : String)
  /-- An option at the end, or in front of another one, that takes a value. -/
  | missingValue (option : String)
  /-- A value for an option that takes none. -/
  | needlessValue (option : String)
  | invalidValue (option value : String)
  /-- An option or the operand a second time. -/
  | repeated (option : String)
  deriving DecidableEq, Repr, Inhabited

/-- The wording of an error. -/
def UsageError.message : UsageError → String
  | .unknown argument => s!"unexpected argument '{argument}' found"
  | .missingValue option => s!"a value is required for '{option}' but none was supplied"
  | .needlessValue option => s!"unexpected value for '{option}' found; no more were expected"
  | .invalidValue option value => s!"invalid value '{value}' for '{option}'"
  | .repeated option => s!"the argument '{option}' cannot be used multiple times"

/-- What the arguments come down to. -/
inductive Request where
  | run (arguments : Arguments)
  | help
  | version
  deriving DecidableEq, Repr, Inhabited

namespace Arguments

/-! ## Values -/

/-- A value kept in a place that may be filled once. -/
def fill {α : Type} (option : String) (place : Option α) (value : α) :
    Except UsageError (Option α) :=
  if place.isSome then .error (.repeated option) else .ok (some value)

/-- A path as a value. It may not be empty. -/
def pathValue (option value : String) : Except UsageError String :=
  if value.isEmpty then .error (.missingValue option) else .ok value

/-- A value with one of some meanings. -/
def choice {α : Type} (option value : String) : Option α → Except UsageError α
  | some meaning => .ok meaning
  | none => .error (.invalidValue option value)

/-! ## Options -/

/-- What the value of an option does to what was asked for so far. -/
abbrev SetValue := String → Arguments → Except UsageError Arguments

/-- The options that take a value. -/
def valueOptions : List (String × SetValue) :=
  [("--entry", fun value a => do return { a with entry? := ← fill "--entry" a.entry? value }),
   ("--out-dir", fun value a => do
     let path ← pathValue "--out-dir" value
     return { a with directory? := ← fill "--out-dir" a.directory? path }),
   ("--filename", fun value a => do
     return { a with fileName? := ← fill "--filename" a.fileName? value }),
   ("--log-level", fun value a => do
     let level ← choice "--log-level" value (LogLevel.parse? value)
     return { a with logLevel? := ← fill "--log-level" a.logLevel? level }),
   ("--log-phase", fun value a => return { a with logPhases := a.logPhases ++ [value] }),
   ("--log-format", fun value a => do
     let format ← choice "--log-format" value (LogFormat.ofName? value)
     return { a with logFormat? := ← fill "--log-format" a.logFormat? format }),
   ("--log-file", fun value a => do
     let path ← pathValue "--log-file" value
     return { a with logFile? := ← fill "--log-file" a.logFile? path })]

/-- The options without a value. -/
def flags : List (String × (Arguments → Except UsageError Arguments)) :=
  [("--stdout", fun a =>
     if a.toOutput then .error (.repeated "--stdout") else .ok { a with toOutput := true }),
   ("--dump-graph", fun a =>
     if a.dumpGraph then .error (.repeated "--dump-graph") else .ok { a with dumpGraph := true })]

/-- Takes an operand. -/
def setOperand (operand : String) (a : Arguments) : Except UsageError Arguments :=
  if a.project?.isSome then .error (.unknown operand)
  else do return { a with project? := some (← pathValue "CONFIG" operand) }

/-! ## Reading -/

/-- An argument as seen from its dashes. -/
inductive Look where
  /-- Two dashes alone. -/
  | rest
  /-- A name after two dashes, with the value after an equals sign. -/
  | long (name : String) (value? : Option String)
  /-- Something after one dash. -/
  | short (letter : Char)
  | operand
  deriving DecidableEq, Repr

/-- Tells the kinds of arguments apart. -/
def look (argument : String) : Look :=
  match argument.toList with
  | ['-', '-'] => .rest
  | '-' :: '-' :: cs =>
    let name := cs.takeWhile (· != '=')
    let value? := (cs.dropWhile (· != '=')).tail?
    .long ("--" ++ String.ofList name) (value?.map String.ofList)
  | '-' :: letter :: _ => .short letter
  | _ => .operand

/-- Reads operands only. -/
def readOperands : Arguments → List String → Except UsageError Request
  | a, [] => .ok (.run a)
  | a, operand :: rest =>
    match setOperand operand a with
    | .ok a => readOperands a rest
    | .error e => .error e

/-- What an option without a value does. -/
def readFlag (name : String) (a : Arguments) : Except UsageError (Arguments ⊕ Request) :=
  if name == "--help" then .ok (.inr .help)
  else if name == "--version" then .ok (.inr .version)
  else
    match flags.lookup name with
    | some set => (set a).map .inl
    | none => .error (.unknown name)

/-- Whether a name is that of an option without a value. -/
def isFlag (name : String) : Bool :=
  name == "--help" || name == "--version" || (flags.lookup name).isSome

/-- Reads arguments on top of what was asked for so far. -/
def read : Arguments → List String → Except UsageError Request
  | a, [] => .ok (.run a)
  | a, argument :: rest =>
    match look argument with
    | .rest => readOperands a rest
    | .operand =>
      match setOperand argument a with
      | .ok a => read a rest
      | .error e => .error e
    | .short letter =>
      if letter == 'h' then .ok .help
      else if letter == 'V' then .ok .version
      else .error (.unknown argument)
    | .long name value? =>
      match valueOptions.lookup name, value? with
      | some set, some value =>
        match set value a with
        | .ok a => read a rest
        | .error e => .error e
      | some set, none =>
        match rest with
        | [] => .error (.missingValue name)
        | value :: rest =>
          if look value == .operand then
            match set value a with
            | .ok a => read a rest
            | .error e => .error e
          else .error (.missingValue name)
      | none, some _ => .error (if isFlag name then .needlessValue name else .unknown name)
      | none, none =>
        match readFlag name a with
        | .ok (.inl a) => read a rest
        | .ok (.inr request) => .ok request
        | .error e => .error e

end Arguments

/-- What a command line asks for. -/
def readArguments (arguments : List String) : Except UsageError Request :=
  Arguments.read {} arguments

end ModuleBundler
