import GlslEs.Config

/-!
# Arguments

What the words after the name of the program ask for.  Some options may stand in front of the
command as well as after it, and those after it win.  An option has a long name and may have a
letter; letters may be joined, and a value may follow in the next word, after an equals sign or,
for a letter, at once.  After two hyphens every word is an input.

* `Invocation.ofArguments`: the command that a list of words asks for.
-/

namespace GlslEs

/-- To optimize one shader. -/
structure OptimizeJob where
  input : String
  output : Option String := none
  emit : EmitOptions := {}
  stage : Option Stage := none
  limits : Option String := none
  allowPartialOutput : Bool := false
  recheck : Bool := false
deriving DecidableEq, Repr

/-- To check some shaders. -/
structure ValidateJob where
  inputs : List String
  stage : Option Stage := none
  limits : Option String := none
  json : Bool := false
deriving DecidableEq, Repr

/-- To show the table of limits. -/
structure LimitsJob where
  format : LimitFormat := .json
  limits : Option String := none
deriving DecidableEq, Repr

/-- What there is to do. -/
inductive Command where
  | optimize (job : OptimizeJob)
  | validate (job : ValidateJob)
  | limits (job : LimitsJob)
deriving DecidableEq, Repr

/-- A command and the options that every command has. -/
structure Invocation where
  verbosity : Nat := 0
  quiet : Bool := false
  config : Option String := none
  command : Command
deriving DecidableEq, Repr

/-- What is wrong with a list of words. -/
inductive UsageError where
  | unknownArgument (word : String)
  | unknownCommand (word : String)
  | missingCommand
  | missingInput
  | missingValue (option : String)
  | unexpectedValue (option value : String)
  | invalidValue (option value : String)
  | repeated (option : String)
deriving DecidableEq, Repr

namespace UsageError

def message : UsageError → String
  | .unknownArgument word => "unexpected argument '" ++ word ++ "' found"
  | .unknownCommand word => "unrecognized subcommand '" ++ word ++ "'"
  | .missingCommand => "a subcommand is required but one was not provided"
  | .missingInput => "the following required arguments were not provided: <INPUT>"
  | .missingValue option => "a value is required for '--" ++ option ++ "' but none was supplied"
  | .unexpectedValue option value =>
    "unexpected value '" ++ value ++ "' for '--" ++ option ++ "' found"
  | .invalidValue option value => "invalid value '" ++ value ++ "' for '--" ++ option ++ "'"
  | .repeated option => "the argument '--" ++ option ++ "' cannot be used multiple times"

end UsageError

/-- Why no command is run. -/
inductive NoCommand where
  | usage (cause : UsageError)
  | help
  | version
deriving DecidableEq, Repr

namespace Arguments

/-! ### Words -/

/-- An option as it may be given. -/
structure OptionShape where
  name : String
  letter : Option Char := none
  takesValue : Bool := false
deriving DecidableEq, Repr

namespace OptionShape

def shared : List OptionShape :=
  [⟨"verbose", some 'v', false⟩, ⟨"quiet", some 'q', false⟩, ⟨"config", some 'c', true⟩]

def optimize : List OptionShape :=
  shared ++ [⟨"output", some 'o', true⟩, ⟨"mangle", none, false⟩, ⟨"minify", none, false⟩,
    ⟨"beautify", none, false⟩, ⟨"stage", none, true⟩, ⟨"limits", none, true⟩,
    ⟨"allow-partial", none, false⟩, ⟨"verify", none, false⟩]

def validate : List OptionShape :=
  shared ++ [⟨"stage", none, true⟩, ⟨"limits", none, true⟩, ⟨"json", none, false⟩]

def limits : List OptionShape :=
  shared ++ [⟨"format", none, true⟩, ⟨"limits", none, true⟩]

end OptionShape

/-- What one or two words give. -/
inductive Given where
  | flag (name : String)
  | value (name : String) (text : String)
  | word (text : String)
deriving DecidableEq, Repr

namespace Given

def name? : Given → Option String
  | .flag name => some name
  | .value name _ => some name
  | .word _ => none

def word? : Given → Option String
  | .word text => some text
  | _ => none

end Given

/-- Whether a word is an option or a group of letters; a single hyphen is not. -/
def isOptionWord (word : String) : Bool :=
  match word.toList with
  | '-' :: _ :: _ => true
  | _ => false

/-- What an option with a long name gives, or the option that waits for its value. -/
def readLong (shapes : List OptionShape) (text : List Char) :
    Except NoCommand (List Given × Option OptionShape) :=
  let name := text.takeWhile (· != '=')
  let word := String.ofList ('-' :: '-' :: text)
  match shapes.find? (·.name.toList == name) with
  | none =>
    if text == "help".toList then .error .help else .error (.usage (.unknownArgument word))
  | some shape =>
    match shape.takesValue, text.drop name.length with
    | true, [] => .ok ([], some shape)
    | true, _ :: value => .ok ([.value shape.name (String.ofList value)], none)
    | false, [] => .ok ([.flag shape.name], none)
    | false, _ :: value =>
      .error (.usage (.unexpectedValue shape.name (String.ofList value)))

/-- What a group of letters gives, or the option that waits for its value. -/
def readLetters (shapes : List OptionShape) :
    List Char → Except NoCommand (List Given × Option OptionShape)
  | [] => .ok ([], none)
  | c :: cs =>
    match shapes.find? (·.letter == some c) with
    | none =>
      if c == 'h' then .error .help
      else .error (.usage (.unknownArgument (String.ofList ['-', c])))
    | some shape =>
      if shape.takesValue then
        match cs with
        | [] => .ok ([], some shape)
        | '=' :: value => .ok ([.value shape.name (String.ofList value)], none)
        | value => .ok ([.value shape.name (String.ofList value)], none)
      else do
        let (given, waiting) ← readLetters shapes cs
        return (.flag shape.name :: given, waiting)

/-- What a word that is an option gives, or the option that waits for its value. -/
def readOption (shapes : List OptionShape) (word : String) :
    Except NoCommand (List Given × Option OptionShape) :=
  match word.toList with
  | '-' :: '-' :: text => readLong shapes text
  | '-' :: letters => readLetters shapes letters
  | _ => .ok ([.word word], none)

/-- What a list of words gives, up to the first word that belongs to no option, and the words
from there on.  One option may wait for its value. -/
def readFront (shapes : List OptionShape) :
    Option OptionShape → List String → Except NoCommand (List Given × List String)
  | none, [] => .ok ([], [])
  | some shape, [] => .error (.usage (.missingValue shape.name))
  | some shape, word :: rest =>
    if isOptionWord word then .error (.usage (.missingValue shape.name))
    else do
      let (given, rest) ← readFront shapes none rest
      return (.value shape.name word :: given, rest)
  | none, word :: rest =>
    if word == "--" then
      match rest with
      | [] => .ok ([], [])
      | word :: _ => .error (.usage (.unknownArgument word))
    else if isOptionWord word then do
      let (first, waiting) ← readOption shapes word
      let (given, rest) ← readFront shapes waiting rest
      return (first ++ given, rest)
    else .ok ([], word :: rest)

/-- What a list of words gives.  One option may wait for its value. -/
def readAll (shapes : List OptionShape) :
    Option OptionShape → List String → Except NoCommand (List Given)
  | none, [] => .ok []
  | some shape, [] => .error (.usage (.missingValue shape.name))
  | some shape, word :: rest =>
    if isOptionWord word then .error (.usage (.missingValue shape.name))
    else do
      return .value shape.name word :: (← readAll shapes none rest)
  | none, word :: rest =>
    if word == "--" then .ok (rest.map .word)
    else if isOptionWord word then do
      let (first, waiting) ← readOption shapes word
      return first ++ (← readAll shapes waiting rest)
    else do
      return .word word :: (← readAll shapes none rest)

/-! ### Options -/

/-- What is given, if no option but the verbosity is given twice. -/
def withoutRepeats : List Given → Except NoCommand (List Given)
  | [] => .ok []
  | g :: gs =>
    match g.name? with
    | some name =>
      if name != "verbose" && gs.any (·.name? == some name) then
        .error (.usage (.repeated name))
      else do return g :: (← withoutRepeats gs)
    | none => do return g :: (← withoutRepeats gs)

def isGiven (given : List Given) (name : String) : Bool :=
  given.any (·.name? == some name)

def timesGiven (given : List Given) (name : String) : Nat :=
  given.countP (·.name? == some name)

def valueOf (given : List Given) (name : String) : Option String :=
  given.findSome? fun
    | .value n text => if n == name then some text else none
    | _ => none

def fileOf (given : List Given) (name : String) : Except NoCommand (Option String) :=
  match valueOf given name with
  | some "" => .error (.usage (.missingValue name))
  | value => .ok value

/-- The value of an option with a fixed choice of words. -/
def choiceOf {α : Type} (given : List Given) (name : String) (ofName? : String → Option α) :
    Except NoCommand (Option α) :=
  match valueOf given name with
  | none => .ok none
  | some word =>
    match ofName? word with
    | some a => .ok (some a)
    | none => .error (.usage (.invalidValue name word))

def inputsOf (given : List Given) : Except NoCommand (List String) :=
  let words := given.filterMap Given.word?
  if words.contains "" then .error (.usage .missingInput) else .ok words

end Arguments

open Arguments

/-! ### Commands -/

namespace OptimizeJob

/-- To optimize, as the options say. -/
def ofGiven (given : List Given) : Except NoCommand OptimizeJob := do
  match ← inputsOf given with
  | [] => .error (.usage .missingInput)
  | _ :: word :: _ => .error (.usage (.unknownArgument word))
  | [input] =>
    return {
      input
      output := ← fileOf given "output"
      emit := ⟨isGiven given "mangle", isGiven given "minify", isGiven given "beautify"⟩
      stage := ← choiceOf given "stage" Stage.ofName?
      limits := ← fileOf given "limits"
      allowPartialOutput := isGiven given "allow-partial"
      recheck := isGiven given "verify" }

end OptimizeJob

namespace ValidateJob

/-- To check, as the options say. -/
def ofGiven (given : List Given) : Except NoCommand ValidateJob := do
  let inputs ← inputsOf given
  if inputs.isEmpty then .error (.usage .missingInput)
  else
    return {
      inputs
      stage := ← choiceOf given "stage" Stage.ofName?
      limits := ← fileOf given "limits"
      json := isGiven given "json" }

end ValidateJob

namespace LimitFormat

def ofName? : String → Option LimitFormat
  | "json" => some .json
  | "toml" => some .toml
  | _ => none

end LimitFormat

namespace LimitsJob

/-- To show limits, as the options say. -/
def ofGiven (given : List Given) : Except NoCommand LimitsJob := do
  match ← inputsOf given with
  | word :: _ => .error (.usage (.unknownArgument word))
  | [] =>
    return {
      format := (← choiceOf given "format" LimitFormat.ofName?).getD .json
      limits := ← fileOf given "limits" }

end LimitsJob

namespace Invocation

/-- The options of a command and the way to read it from what is given. -/
def reader? : String → Option (List OptionShape × (List Given → Except NoCommand Command))
  | "optimize" => some (OptionShape.optimize, fun g => .optimize <$> OptimizeJob.ofGiven g)
  | "validate" => some (OptionShape.validate, fun g => .validate <$> ValidateJob.ofGiven g)
  | "limits" => some (OptionShape.limits, fun g => .limits <$> LimitsJob.ofGiven g)
  | _ => none

/-- The options in front of a command may also ask for the version. -/
def frontShapes : List OptionShape :=
  OptionShape.shared ++ [⟨"version", some 'V', false⟩]

def ofArguments (words : List String) : Except NoCommand Invocation := do
  let (front, rest) ← readFront frontShapes none words
  let front ← withoutRepeats front
  if isGiven front "version" then .error .version
  else
    match rest with
    | [] => .error (.usage .missingCommand)
    | "help" :: _ => .error .help
    | name :: rest =>
      match reader? name with
      | none => .error (.usage (.unknownCommand name))
      | some (shapes, read) =>
        let given ← withoutRepeats (← readAll shapes none rest)
        let own := timesGiven given "verbose"
        let config ← fileOf given "config"
        let outer ← fileOf front "config"
        return {
          verbosity := if own = 0 then timesGiven front "verbose" else own
          quiet := isGiven given "quiet" || isGiven front "quiet"
          config := config.or outer
          command := ← read given }

end Invocation

end GlslEs
