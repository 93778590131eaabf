import FeaturePress.Text.Basic

/-! Which messages a command shows. A filter is written as directives with commas between them:
each gives the least urgent level that is shown, everywhere or for one target. A filter that is
not set or not valid follows from how much verbosity the command line asks for.
-/

namespace FeaturePress

/-- How urgent a message must be to be shown. -/
inductive LogLevel where
  | off
  | error
  | warn
  | info
  | debug
  | trace
deriving DecidableEq

namespace LogLevel

/-- All levels, each at the position of its number. -/
def all : List LogLevel :=
  [.off, .error, .warn, .info, .debug, .trace]

/-- How a level is written. -/
def name : LogLevel → Text
  | .off => "off".toList
  | .error => "error".toList
  | .warn => "warn".toList
  | .info => "info".toList
  | .debug => "debug".toList
  | .trace => "trace".toList

/-- The level that a word names, in capitals or small letters, or by its number. -/
def ofWord? (word : Text) : Option LogLevel :=
  match Text.toNat? word with
  | some number => all[number]?
  | none => all.find? fun level => level.name = Text.lowerAscii word

/-- The level that follows from verbosity. -/
def ofVerbosity : Nat → LogLevel
  | 0 => .info
  | 1 => .debug
  | _ => .trace

end LogLevel

/-- A directive: the level of one target, or of all that have none of their own. -/
structure LogDirective where
  target : Option Text
  level : LogLevel
deriving DecidableEq

namespace LogDirective

/-- Whether a target may hold the character. -/
def isTargetChar (c : Char) : Bool :=
  c.isAlphanum || c = '_' || c = ':' || c = '-'

/-- The level behind the equals sign of a directive; everything is shown when none stands there.
-/
def levelBehind? : Text → Option LogLevel
  | [] => some .trace
  | ['='] => some .trace
  | '=' :: word => LogLevel.ofWord? word
  | _ => none

/-- Reads a directive. A level alone is meant for all targets. -/
def ofText? (written : Text) : Option LogDirective :=
  match LogLevel.ofWord? written with
  | some level => some ⟨none, level⟩
  | none =>
    let target := written.takeWhile isTargetChar
    if target.isEmpty then none
    else
      (levelBehind? (written.dropWhile isTargetChar)).map fun level =>
        ⟨if (LogLevel.ofWord? target).isSome then none else some target, level⟩

/-- How a directive is written. -/
def text (directive : LogDirective) : Text :=
  match directive.target with
  | none => directive.level.name
  | some target => target ++ '=' :: directive.level.name

/-- Whether the directive of one target is looked at before that of another: longer targets are
more specific, and no target is the least specific.
-/
def comesBefore : Option Text → Option Text → Bool
  | some left, some right =>
    right.length < left.length || (left.length = right.length && right < left)
  | some _, none => true
  | none, _ => false

end LogDirective

/-- Directives of different targets, the most specific first. -/
abbrev LogFilter := List LogDirective

namespace LogFilter

/-- A filter with one more directive, which replaces one of its target. -/
def add (directive : LogDirective) : LogFilter → LogFilter
  | [] => [directive]
  | other :: rest =>
    if directive.target = other.target then directive :: rest
    else if LogDirective.comesBefore directive.target other.target then
      directive :: other :: rest
    else other :: add directive rest

/-- Reads a filter; an empty text has no directive. -/
def ofText? (written : Text) : Option LogFilter :=
  if written.isEmpty then some []
  else
    ((written.splitOn ',').mapM LogDirective.ofText?).map fun directives =>
      directives.foldl (fun filter directive => add directive filter) []

/-- How a filter is written. -/
def text (filter : LogFilter) : Text :=
  List.intercalate [','] (filter.map LogDirective.text)

/-- The filter in force: the one that is set, if it is valid, or else that of a verbosity. -/
def inForce (set : Option Text) (verbosity : Nat) : LogFilter :=
  match set.bind ofText? with
  | some filter => filter
  | none => [⟨none, LogLevel.ofVerbosity verbosity⟩]

end LogFilter

end FeaturePress
