/-!
# Arguments of the command line

What the arguments ask for. Options of a command may stand before, between and behind its units. The
value of an option follows it or is attached to it, with or without an equals sign, and letters of
options without a value may share a dash. After `--` there are only units.
-/

namespace SsaCompiler

namespace CommandLine

inductive Command where
  | check
  | build
deriving DecidableEq, Repr

inductive Setting where
  | config
  | moduleName
  | jobs
  | output
deriving DecidableEq, Repr

structure Invocation where
  command : Command
  units : List String
  config : Option String
  moduleName : Option String
  jobs : Option Nat
  output : Option String
deriving DecidableEq, Repr

inductive Topic where
  | program
  | command (command : Command)
  | help
deriving DecidableEq, Repr

inductive Request where
  | run (invocation : Invocation)
  | help (topic : Topic)
  | version
  | misuse
deriving DecidableEq, Repr

namespace Command

def ofName? : String → Option Command
  | "check" => some check
  | "build" => some build
  | _ => none

def invocation (command : Command) : Invocation := ⟨command, [], none, none, none, none⟩

end Command

namespace Setting

def belongsTo : Setting → Command → Bool
  | output, .check => false
  | _, _ => true

def ofName? (command : Command) (name : String) : Option Setting :=
  let setting := match name with
    | "config" => some config
    | "module-name" => some moduleName
    | "jobs" => some jobs
    | "output" => some output
    | _ => none
  setting.filter (·.belongsTo command)

def ofLetter? (command : Command) (letter : Char) : Option Setting :=
  let setting := match letter with
    | 'j' => some jobs
    | 'o' => some output
    | _ => none
  setting.filter (·.belongsTo command)

end Setting

def path? (text : String) : Option String := if text.isEmpty then none else some text

/-- A number of sixty-four bits, which may have a plus sign. -/
def count? (text : String) : Option Nat :=
  let digits := match text.toList with
    | '+' :: digits => digits
    | digits => digits
  if digits.isEmpty || digits.any (fun c => !c.isDigit) then none
  else
    let value := digits.foldl (fun value c => 10 * value + (c.toNat - '0'.toNat)) 0
    if value < Nat.pow 2 64 then some value else none

namespace Invocation

/-- Sets an option that has no value yet. -/
def set? (invocation : Invocation) (setting : Setting) (text : String) : Option Invocation :=
  match setting with
  | .config =>
    if invocation.config.isSome then none
    else (path? text).map fun path => { invocation with config := some path }
  | .moduleName =>
    if invocation.moduleName.isSome then none else some { invocation with moduleName := some text }
  | .jobs =>
    if invocation.jobs.isSome then none
    else (count? text).map fun count => { invocation with jobs := some count }
  | .output =>
    if invocation.output.isSome then none
    else (path? text).map fun path => { invocation with output := some path }

def addUnit? (invocation : Invocation) (text : String) : Option Invocation :=
  (path? text).map fun path => { invocation with units := invocation.units ++ [path] }

end Invocation

/-- What the next argument of a command is read as. -/
inductive Expectation where
  | any
  | value (setting : Setting)
  | unit
deriving DecidableEq, Repr

structure Progress where
  invocation : Invocation
  expectation : Expectation
deriving DecidableEq, Repr

/-- The result of an argument: reading goes on, or the request is settled. -/
abbrev Step := Except Request Progress

namespace Progress

def continue? (invocation : Option Invocation) (expectation : Expectation) : Step :=
  match invocation with
  | some invocation => .ok ⟨invocation, expectation⟩
  | none => .error .misuse

def readLetters (invocation : Invocation) : List Char → Step
  | [] => .ok ⟨invocation, .any⟩
  | 'v' :: rest => readLetters invocation rest
  | 'h' :: _ => .error (.help (.command invocation.command))
  | letter :: rest =>
    match Setting.ofLetter? invocation.command letter with
    | none => .error .misuse
    | some setting =>
      match rest with
      | [] => .ok ⟨invocation, .value setting⟩
      | '=' :: value => continue? (invocation.set? setting (String.ofList value)) .any
      | value => continue? (invocation.set? setting (String.ofList value)) .any

def readLong (invocation : Invocation) (text : List Char) : Step :=
  let name := String.ofList (text.takeWhile (· ≠ '='))
  let value := match text.dropWhile (· ≠ '=') with
    | _ :: value => some (String.ofList value)
    | [] => none
  match name, value with
  | "verbose", none => .ok ⟨invocation, .any⟩
  | "help", none => .error (.help (.command invocation.command))
  | name, value =>
    match Setting.ofName? invocation.command name, value with
    | some setting, some value => continue? (invocation.set? setting value) .any
    | some setting, none => .ok ⟨invocation, .value setting⟩
    | none, _ => .error .misuse

def read (progress : Progress) (argument : String) : Step :=
  let invocation := progress.invocation
  match progress.expectation, argument.toList with
  | .unit, _ => continue? (invocation.addUnit? argument) .unit
  | .value setting, text =>
    match text with
    | '-' :: _ :: _ => .error .misuse
    | _ => continue? (invocation.set? setting argument) .any
  | .any, ['-', '-'] => .ok ⟨invocation, .unit⟩
  | .any, '-' :: '-' :: text => readLong invocation text
  | .any, '-' :: letter :: rest => readLetters invocation (letter :: rest)
  | .any, _ => continue? (invocation.addUnit? argument) .any

/-- The request of a command whose arguments have been read. There has to be a unit. -/
def finish (progress : Progress) : Request :=
  match progress.expectation, progress.invocation.units with
  | .value _, _ => .misuse
  | _, [] => .misuse
  | _, _ => .run progress.invocation

end Progress

def readCommand (command : Command) (arguments : List String) : Request :=
  match arguments.foldlM Progress.read ⟨command.invocation, .any⟩ with
  | .ok progress => progress.finish
  | .error request => request

def readHelp : List String → Request
  | [] => .help .program
  | ["help"] => .help .help
  | [name] =>
    match Command.ofName? name with
    | some command => .help (.command command)
    | none => .misuse
  | _ => .misuse

/-- What letters in front of the command ask for, if they settle the request. -/
def readLetters? : List Char → Option Request
  | [] => none
  | 'v' :: rest => readLetters? rest
  | 'h' :: _ => some (.help .program)
  | 'V' :: _ => some .version
  | _ => some .misuse

def readArguments : List String → Request
  | [] => .misuse
  | "--verbose" :: rest => readArguments rest
  | "--help" :: _ => .help .program
  | "--version" :: _ => .version
  | "help" :: rest => readHelp rest
  | argument :: rest =>
    match Command.ofName? argument with
    | some command => readCommand command rest
    | none =>
      match argument.toList with
      | '-' :: letter :: letters =>
        match readLetters? (letter :: letters) with
        | some request => request
        | none => readArguments rest
      | _ => .misuse

end CommandLine

end SsaCompiler
