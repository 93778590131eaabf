import FeaturePress.Path

/-! Command lines: a command with its flags, and options that may stand before and behind it. What
stands behind the command counts where both places name an option.
-/

namespace FeaturePress

/-- A command. -/
inductive Action where
  | build (force noCache : Bool)
  | stepGroups (force : Bool)
  | clean
deriving DecidableEq

/-- A command line. -/
structure CommandLine where
  action : Action
  config : Option Path
  featuresDirectory : Option Path
  outputDirectory : Option Path
  verbosity : Nat
deriving DecidableEq

/-- Why a command line runs no command: it is wrong, or it only asks for help or the version. -/
inductive UsageStop where
  | unknownArgument
  | invalidSubcommand
  | missingSubcommand
  | invalidValue
  | argumentConflict
  | tooManyValues
  | displayHelp
  | displayVersion
  | displayHelpOnMissing
deriving DecidableEq

namespace CommandLine

/-- An option that takes a value. -/
inductive ValueOption where
  | config
  | featuresDirectory
  | outputDirectory
deriving DecidableEq

/-- What a flag or option does. -/
inductive Switch where
  | takesValue (option : ValueOption)
  | verbose
  | force
  | noCache
  | help
  | version
deriving DecidableEq

/-- Where on the command line an argument stands. -/
inductive Level where
  | beforeCommand
  | build
  | stepGroups
  | clean
deriving DecidableEq

/-- The switch of a long name at a level. -/
def longSwitch? (level : Level) (name : Text) : Option Switch :=
  if name = "config".toList then some (.takesValue .config)
  else if name = "features-dir".toList then some (.takesValue .featuresDirectory)
  else if name = "output-dir".toList then some (.takesValue .outputDirectory)
  else if name = "verbose".toList then some .verbose
  else if name = "help".toList then some .help
  else if name = "version".toList && level = .beforeCommand then some .version
  else if name = "force".toList && (level = .build || level = .stepGroups) then some .force
  else if name = "no-cache".toList && level = .build then some .noCache
  else none

/-- The switch of a letter at a level. -/
def shortSwitch? (level : Level) (letter : Char) : Option Switch :=
  if letter = 'v' then some .verbose
  else if letter = 'h' then some .help
  else if letter = 'V' && level = .beforeCommand then some .version
  else none

/-- The level behind a command. -/
def commandLevel? (name : Text) : Option Level :=
  if name = "build".toList then some .build
  else if name = "step-groups".toList then some .stepGroups
  else if name = "clean".toList then some .clean
  else none

/-- The name of the command that shows help. -/
def helpName : Text := "help".toList

/-- Whether a word is the name of a command. -/
def isCommandName (name : Text) : Bool :=
  (commandLevel? name).isSome || name = helpName

/-- What a level has given so far. An option waits with or without its value until the next switch
or the end.
-/
structure Given where
  config : Option Text
  featuresDirectory : Option Text
  outputDirectory : Option Text
  verbosity : Option Nat
  force : Bool
  noCache : Bool
  waiting : Option (ValueOption × Option Text)
deriving DecidableEq

namespace Given

/-- A level at which nothing is given. -/
def nothing : Given := ⟨none, none, none, none, false, false, none⟩

/-- The value of an option. -/
def value? (given : Given) : ValueOption → Option Text
  | .config => given.config
  | .featuresDirectory => given.featuresDirectory
  | .outputDirectory => given.outputDirectory

/-- Sets the value of an option, which may be given only once. -/
def setValue (given : Given) (option : ValueOption) (value : Text) : Except UsageStop Given :=
  if (given.value? option).isSome then .error .argumentConflict
  else
    .ok (match option with
      | .config => { given with config := some value }
      | .featuresDirectory => { given with featuresDirectory := some value }
      | .outputDirectory => { given with outputDirectory := some value })

/-- Takes over the value of an option that waits; it must have one. -/
def settle (given : Given) : Except UsageStop Given :=
  match given.waiting with
  | none => .ok given
  | some (_, none) => .error .invalidValue
  | some (option, some value) => { given with waiting := none }.setValue option value

/-- Whether the next word is the value of an option. -/
def awaitsValue (given : Given) : Bool :=
  match given.waiting with
  | some (_, none) => true
  | _ => false

/-- The greatest number of times that verbosity counts. -/
def greatestVerbosity : Nat := 255

/-- What a switch without a value behind an equals sign does. -/
def flip (given : Given) (switch : Switch) : Except UsageStop Given :=
  match given.settle with
  | .error stop => .error stop
  | .ok settled =>
    match switch with
    | .takesValue option => .ok { settled with waiting := some (option, none) }
    | .verbose =>
      .ok { settled with
        verbosity := some (min greatestVerbosity (settled.verbosity.getD 0 + 1)) }
    | .force =>
      if settled.force then .error .argumentConflict else .ok { settled with force := true }
    | .noCache =>
      if settled.noCache then .error .argumentConflict else .ok { settled with noCache := true }
    | .help => .error .displayHelp
    | .version => .error .displayVersion

/-- What a switch with a value behind an equals sign does. -/
def flipWith (given : Given) (switch : Switch) (value : Text) : Except UsageStop Given :=
  match switch with
  | .takesValue option =>
    match given.settle with
    | .error stop => .error stop
    | .ok settled => settled.setValue option value
  | _ => .error .tooManyValues

/-- Whether anything was given. -/
def isEmpty (given : Given) : Bool :=
  given.config.isNone && given.featuresDirectory.isNone && given.outputDirectory.isNone
    && given.verbosity.isNone

end Given

/-- A long switch, with or without a value behind an equals sign. -/
def readLong (level : Level) (given : Given) (body : Text) : Except UsageStop Given :=
  let name := body.takeWhile (· ≠ '=')
  match longSwitch? level name with
  | none => .error .unknownArgument
  | some switch =>
    match body.dropWhile (· ≠ '=') with
    | _ :: value => given.flipWith switch value
    | [] => given.flip switch

/-- Letters behind a single dash. -/
def readShort (level : Level) (given : Given) : List Char → Except UsageStop Given
  | [] => .ok given
  | letter :: rest =>
    match shortSwitch? level letter with
    | none => .error .unknownArgument
    | some switch =>
      match given.flip switch with
      | .error stop => .error stop
      | .ok next => readShort level next rest

/-- Why a word that is neither a switch nor a value cannot stand at a level. -/
def strayWord (level : Level) (behindDashes : Bool) (word : Text) : UsageStop :=
  if level ≠ .beforeCommand then .unknownArgument
  else if behindDashes && isCommandName word then .unknownArgument
  else .invalidSubcommand

/-- A word: the value of an option that waits for it, or out of place. -/
def readWord (level : Level) (given : Given) (word : Text) : Except UsageStop Given :=
  match given.waiting with
  | some (option, none) => .ok { given with waiting := some (option, some word) }
  | _ => .error (strayWord level false word)

/-- A single argument that is neither a command nor two dashes. -/
def readArgument (level : Level) (given : Given) (argument : Text) : Except UsageStop Given :=
  match argument with
  | '-' :: '-' :: body => readLong level given body
  | '-' :: letter :: rest => readShort level given (letter :: rest)
  | word => readWord level given word

/-- What help is asked for: that of a command, if the words name one. -/
def readHelp : List Text → UsageStop
  | [] => .displayHelp
  | [word] => if isCommandName word then .displayHelp else .invalidSubcommand
  | _ => .invalidSubcommand

/-- Reads the arguments of a level, up to a command and what stands behind it. -/
def readLevel (level : Level) (given : Given)
    : List Text → Except UsageStop (Given × Option (Level × List Text))
  | [] => .ok (given, none)
  | argument :: rest =>
    if level = .beforeCommand && !given.awaitsValue && argument = helpName then
      .error (readHelp rest)
    else
      let command := if level = .beforeCommand && !given.awaitsValue then commandLevel? argument
        else none
      match command with
      | some next => .ok (given, some (next, rest))
      | none =>
        if argument = ['-', '-'] then
          match rest with
          | [] => .ok (given, none)
          | word :: _ => .error (strayWord level true word)
        else
          match readArgument level given argument with
          | .error stop => .error stop
          | .ok next => readLevel level next rest

/-- Reads all arguments of a level behind the command. -/
def readRest (level : Level) (arguments : List Text) : Except UsageStop Given :=
  match readLevel level .nothing arguments with
  | .error stop => .error stop
  | .ok (given, _) => given.settle

/-- The command of a level. -/
def actionOf (level : Level) (given : Given) : Action :=
  match level with
  | .build => .build given.force given.noCache
  | .stepGroups => .stepGroups given.force
  | _ => .clean

/-- The command line of what stands before the command and behind it. -/
def combine (level : Level) (before behind : Given) : CommandLine where
  action := actionOf level behind
  config := (behind.config <|> before.config).map Path.mk
  featuresDirectory := (behind.featuresDirectory <|> before.featuresDirectory).map Path.mk
  outputDirectory := (behind.outputDirectory <|> before.outputDirectory).map Path.mk
  verbosity := (behind.verbosity <|> before.verbosity).getD 0

/-- Reads the arguments of a command line. -/
def ofArguments (arguments : List Text) : Except UsageStop CommandLine :=
  match readLevel .beforeCommand .nothing arguments with
  | .error stop => .error stop
  | .ok (before, none) =>
    match before.settle with
    | .error stop => .error stop
    | .ok settled => .error (if settled.isEmpty then .displayHelpOnMissing else .missingSubcommand)
  | .ok (before, some (level, rest)) =>
    match readRest level rest with
    | .error stop => .error stop
    | .ok behind => before.settle.map fun settled => combine level settled behind

end CommandLine

end FeaturePress
