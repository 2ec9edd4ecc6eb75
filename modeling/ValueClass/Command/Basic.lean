import ValueClass.Command.Args
import ValueClass.Style

/-! # Commands

The three commands of the program with their options, and the reading of a
whole command line.
-/

namespace ValueClass

/-- Options that both generating commands take. -/
structure CommonOptions where
  /-- The settings file; empty for none. -/
  config : Text := []
  /-- The name of the package. -/
  packageName : Option Text := none
  /-- The surroundings of the project; `none` when they were asked for without
      a value. -/
  flavor : Option Flavor := some .auto
  /-- Accept everything without a question. -/
  assumeYes : Bool := false
  /-- Show the result and write nothing. -/
  dryRun : Bool := false
  /-- Show the facts about the generation. -/
  verbose : Bool := false
  deriving Repr, DecidableEq

inductive Command where
  /-- Write the members of the classes in a file. -/
  | generate (file : Text) (member : Option MemberKind) (className : Option Text)
      (options : CommonOptions)
  /-- Write the classes of a JSON document. The name is `none` when it was
      given without a value. -/
  | fromJson (file url : Text) (name separate : Option Text) (outputDir : Text)
      (detectTimestamps : Bool) (options : CommonOptions)
  | config (file : Text) (example? : Bool) (output : Text)
  | nothing
  deriving Repr, DecidableEq

namespace Command

def valued (name : String) : OptionSpec where
  key := name.toList
  spellings := ["--" ++ name.toList]
  choices := some []

/-- An option that takes one of some values. -/
def chosen (name : String) (choices : List Text) : OptionSpec where
  key := name.toList
  spellings := ["--" ++ name.toList]
  choices := some choices

def switch (name : String) : OptionSpec where
  key := name.toList
  spellings := ["--" ++ name.toList]

/-- Options that both generating commands take. -/
def commonSpecs : List OptionSpec :=
  [valued "config", valued "package-name",
   chosen "flavor" [Flavor.auto.label, Flavor.flutter.label, Flavor.dart.label],
   { key := "yes", spellings := ["--yes", "-y"] }, switch "dry-run", switch "verbose"]

/-- What the command that writes members takes. -/
def generateGrammar : Grammar where
  options := [chosen "member" (MemberKind.all.map MemberKind.label), valued "class"] ++ commonSpecs
  operand := some { key := "file" }

/-- What the command that reads JSON takes. -/
def fromJsonGrammar : Grammar where
  options :=
    [valued "url", valued "name", chosen "separate" ["ask", "always", "never"],
     valued "output-dir", switch "detect-timestamps"] ++ commonSpecs
  operand := some { key := "file", isOptional := true }
  exclusive := ["file", "url"]

/-- What the command that shows settings takes. -/
def configGrammar : Grammar where
  options :=
    [valued "config", switch "example",
     { key := "output", spellings := ["--output", "-o"], choices := some [] }]

/-- What may stand before the name of a command. -/
def mainGrammar : Grammar where
  options := [chosen "log-level" ["DEBUG", "INFO", "WARNING", "ERROR"]]

/-- The options that both generating commands take. -/
def commonOf (r : ReadArgs) : CommonOptions where
  config := r.text "config"
  packageName := if r.isGiven "package-name" then some (r.text "package-name") else none
  flavor := if r.isGiven "flavor" then (r.value? "flavor").bind Flavor.ofLabel? else some .auto
  assumeYes := r.isGiven "yes"
  dryRun := r.isGiven "dry-run"
  verbose := r.isGiven "verbose"

def generateOf (r : ReadArgs) : Except Stop Command :=
  match r.value? "file" with
  | none => .error .misuse
  | some file =>
    .ok (.generate file ((r.value? "member").bind MemberKind.ofLabel?)
      (if r.isGiven "class" then some (r.text "class") else none) (commonOf r))

/-- The command that reads JSON; it needs a name and either a file or an
    address. -/
def fromJsonOf (r : ReadArgs) : Except Stop Command :=
  if r.isGiven "name" && (r.isGiven "file" || r.isGiven "url") then
    .ok (.fromJson (r.text "file") (r.text "url") (r.value? "name") (r.value? "separate")
      (r.text "output-dir") (r.isGiven "detect-timestamps") (commonOf r))
  else .error .misuse

def configOf (r : ReadArgs) : Except Stop Command :=
  .ok (.config (r.text "config") (r.isGiven "example") (r.text "output"))

/-- Read the arguments of the command with a name. -/
def ofNamed (name : Text) (args : List Text) : Except Stop Command := do
  let (grammar, build) ←
    if name = "generate" then pure (generateGrammar, generateOf)
    else if name = "from-json" then pure (fromJsonGrammar, fromJsonOf)
    else if name = "config" then pure (configGrammar, configOf)
    else throw .misuse
  let r ← grammar.read args
  let command ← build r
  if r.hasLeftovers then throw .misuse
  return command

/-- The arguments before the first word that is no value, that word, and the
    arguments behind it. -/
def splitAtName : List Text → List ArgToken → Option (List ArgToken × Text × List Text)
  | arg :: args, token :: tokens =>
    match token with
    | .word _ => some ([], arg, args)
    | .option spec _ attached =>
      if spec.choices.isSome && attached.isNone then
        match args, tokens with
        | _ :: args, .word value :: tokens =>
          (splitAtName args tokens).map fun (before, name, behind) =>
            (token :: .word value :: before, name, behind)
        | _, _ => none
      else
        (splitAtName args tokens).map fun (before, name, behind) =>
          (token :: before, name, behind)
    | .marker => none
    | .unknown => (splitAtName args tokens).map fun (before, name, behind) =>
        (token :: before, name, behind)
  | _, _ => none

/-- Finish reading a command line, given what stood before the command. -/
def finish (r : ReadArgs) (command : Command) : Except Stop Command :=
  if r.hasLeftovers then .error .misuse
  else if r.isGiven "log-level" && (r.value? "log-level").isNone then
    .error (.valueless "log-level")
  else .ok command

def ofArgs (args : List Text) : Except Stop Command := do
  let tokens ← ArgToken.ofArgs mainGrammar.allOptions args
  match splitAtName args tokens with
  | none => finish (← mainGrammar.readTokens (Grammar.stepsFor args) tokens {}) .nothing
  | some (before, name, behind) =>
    let r ← mainGrammar.readTokens (Grammar.stepsFor args) before {}
    finish r (← ofNamed name behind)

end Command

end ValueClass
