import ModuleBundler.Config.Read
import ModuleBundler.Phase
import ModuleBundler.Text.Pieces

/-
  Log filters: which messages are let through. There is one level for all messages, and a phase
  may have a level of its own. Messages are told apart by the names of their targets.
-/

namespace ModuleBundler

/-- A log filter: the usual level, and the levels of phases, the latest first. -/
structure LogFilter where
  usual : LogLevel := .info
  phases : List (Phase × LogLevel) := []
  deriving DecidableEq, Repr, Inhabited

/-- Why a level cannot be given to a phase. -/
inductive LogFilterError where
  /-- There is no equals sign. -/
  | malformed (text : String)
  | unknownPhase (name : String)
  | unknownLevel (word : String)
  deriving DecidableEq, Repr, Inhabited

/-- The wording of an error. -/
def LogFilterError.message : LogFilterError → String
  | .malformed text => s!"invalid phase override '{text}' (expected <phase>=<level>)"
  | .unknownPhase name =>
    s!"unknown phase '{name}' (expected resolve, transform, graph or emit)"
  | .unknownLevel word => LogLevel.unknownMessage word

/-- The place of a level in the order of levels. -/
def LogLevel.rank : LogLevel → Nat
  | .error => 0
  | .warn => 1
  | .info => 2
  | .debug => 3
  | .trace => 4

/-- The target of a phase's messages. -/
def Phase.target (phase : Phase) : String := s!"weld::{phase.name}"

namespace LogFilter

/-- The level of a phase. -/
def levelOf (f : LogFilter) (phase : Phase) : LogLevel := (f.phases.lookup phase).getD f.usual

/-- The filter after a phase is given a level, in words such as `graph=debug`. Blanks around the
two words do not matter. -/
def override (f : LogFilter) (text : String) : Except LogFilterError LogFilter :=
  match Text.splitOn '=' text.toList with
  | name :: rest@(_ :: _) =>
    let word := Text.trimBlank (String.ofList (['='].intercalate rest))
    match Phase.ofName? (Text.trimBlank (String.ofList name)), LogLevel.parse? word with
    | none, _ => .error (.unknownPhase (String.ofList name))
    | some _, none => .error (.unknownLevel word)
    | some phase, some level => .ok { f with phases := (phase, level) :: f.phases }
  | _ => .error (.malformed text)

/-- The targets with levels of their own: those of the phases, and two of the program around
them. -/
def targets (f : LogFilter) : List (String × LogLevel) :=
  Phase.all.map (fun phase => (phase.target, f.levelOf phase)) ++
    [("weld::api", f.usual), ("weld::cli", f.usual)]

/-- The level of a target: that of the longest known target which it starts with. -/
def levelAt (f : LogFilter) (target : String) : LogLevel :=
  let known := f.targets.filter fun t => t.1.toList.isPrefixOf target.toList
  match known.mergeSort (fun a b => decide (b.1.length ≤ a.1.length)) with
  | [] => f.usual
  | (_, level) :: _ => level

/-- Whether a message is let through. -/
def enables (f : LogFilter) (target : String) (level : LogLevel) : Bool :=
  level.rank ≤ (f.levelAt target).rank

end LogFilter

end ModuleBundler
